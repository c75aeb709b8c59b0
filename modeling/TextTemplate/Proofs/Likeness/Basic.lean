import TextTemplate.Proofs.Evaluation
import TextTemplate.Render.Basic

/-! Comparing two computations of the renderer, and the rules by which comparisons are put
together. -/

namespace TextTemplate

namespace Run
variable {α : Type}

/-- Whatever it does before, the run ends with this failure. -/
def Ends (e : EngineError) : Run α → Prop
  | done r => r = .error e
  | render _ _ next => ∀ r, (next r).Ends e
  | note _ next => next.Ends e

/-- When a part of its block fails, the run ends with that failure. -/
def Propagates : Run α → Prop
  | done _ => True
  | render _ _ next => (∀ out, (next (.ok out)).Propagates) ∧ ∀ e, (next (.error e)).Ends e
  | note _ next => next.Propagates

end Run

/-- A part of the block is rendered, and the run goes on with what came of it. -/
theorem Run.within_render {α : Type} (part : Part → Option Value → Render String) (p : Part)
    (context : Option Value) (next : Except EngineError String → Run α) (st : RenderState) :
    (Run.render p context next).within part st =
      match part p context st with
      | .ok out st' => (next (.ok out)).within part st'
      | .error e st' => (next (.error e)).within part st' := by
  simp only [Run.within, Bind.bind, EStateM.bind, Render.attempt]
  cases part p context st <;> rfl

theorem Run.Ends.within {α : Type} {e : EngineError} {run : Run α} (h : run.Ends e)
    (part : Part → Option Value → Render String) (st : RenderState) :
    ∃ st', run.within part st = .error e st' := by
  induction run generalizing st with
  | done r =>
    cases h
    exact ⟨st, rfl⟩
  | render p context next ih =>
    rw [Run.within_render]
    cases part p context st with
    | ok out st' => exact ih _ (h _) st'
    | error e st' => exact ih _ (h _) st'
  | note message next ih => exact ih h _

def Helper.Propagates (h : Helper) : Prop := ∀ c, (h c).Propagates

/-- Every helper returns the failure of a part of its block that fails. -/
def Engine.Propagates (e : Engine) : Prop :=
  ∀ name h, e.helpers.get? name = some h → Helper.Propagates h

/-- The built-in helpers render no part of a block. -/
theorem builtin_propagates {name : String} {h : Helper} (hn : Helper.builtin.get? name = some h) :
    h.Propagates := by
  intro c
  simp only [Helper.builtin, Dict.get?_cons, Dict.get?_nil] at hn
  split at hn
  · cases hn
    rw [Helper.lookup]
    split <;> exact trivial
  · split at hn
    · cases hn
      exact trivial
    · cases hn

/-- How a computation ends, without the state that it leaves. -/
def Render.outcome {α : Type} (x : Render α) (st : RenderState) : Except EngineError α :=
  match x st with
  | .ok a _ => .ok a
  | .error e _ => .error e

section outcome
variable {α β : Type} {st : RenderState}

theorem outcome_eval {x : Eval α} {f : α → Render β} {a : α} {log : List String}
    (h : x st.log = .ok a log) :
    Render.outcome (.eval x >>= f) st = (f a).outcome { st with log } := by
  simp only [Render.outcome, bind, EStateM.bind, Render.eval, h]

theorem outcome_withPending (pending : Option PendingBody) (x : Render α) :
    Render.outcome (.withPending pending x) st = x.outcome { st with pending } := by
  simp only [Render.outcome, Render.withPending, Render.leaving]
  cases x { st with pending } <;> rfl

end outcome

/-- How far the failures of two computations may differ. Of the second nothing is asked once the
first has an excused failure. -/
structure Tolerance where
  excused : EngineError → Prop
  alike : EngineError → EngineError → Prop
  refl : ∀ e, alike e e

/-- Failures are the same. -/
def Tolerance.exact : Tolerance := ⟨fun _ => False, Eq, fun _ => rfl⟩

/-- Failures are the same, but after one at the nesting limit anything may follow. -/
def Tolerance.limited : Tolerance where
  excused e := ∃ name limit, e = .nestingLimit name limit
  alike := Eq
  refl _ := rfl

/-- How the bodies may differ that are pending in two computations. -/
abbrev Pendings := Option PendingBody → Option PendingBody → Prop

/-- Two ends that are the same up to the tolerance, with pending bodies as they may be. -/
inductive Matches {α : Type} (t : Tolerance) (R : Pendings) :
    EStateM.Result EngineError RenderState α → EStateM.Result EngineError RenderState α → Prop
  | ok {a st st'} (h : R st.pending st'.pending) : Matches t R (.ok a st) (.ok a st')
  | alike {e e' st st'} (h : t.alike e e') : Matches t R (.error e st) (.error e' st')
  | excused {e st r} (h : t.excused e) : Matches t R (.error e st) r

/-- Where the pending bodies are as they may be, both computations come to the same end. What was
logged before does not matter. -/
def Like {α : Type} (t : Tolerance) (R : Pendings) (x y : Render α) : Prop :=
  ∀ st st', R st.pending st'.pending → Matches t R (x st) (y st')

section
variable {α β : Type} {t : Tolerance} {R Q : Pendings} {x y : Render α} {f g : α → Render β}
  {st st' : RenderState}

theorem like_pure (a : α) : Like t R (pure a) (pure a) := fun _ _ h => .ok h

theorem like_outcome (r : Except EngineError α) : Like t R (.ofExcept r) (.ofExcept r) := by
  cases r with
  | ok a => exact like_pure a
  | error e => exact fun _ _ _ => .alike (t.refl e)

theorem like_bind (hx : Like t R x y) (hf : ∀ a, Like t R (f a) (g a)) :
    Like t R (x >>= f) (y >>= g) := by
  intro st st' h
  have hm := hx st st' h
  simp only [bind, EStateM.bind]
  generalize x st = p, y st' = q at hm ⊢
  cases hm with
  | ok h => exact hf _ _ _ h
  | alike h => exact .alike h
  | excused h => exact .excused h

theorem like_map (f : α → β) (hx : Like t R x y) : Like t R (f <$> x) (f <$> y) := by
  rw [map_eq_pure_bind, map_eq_pure_bind]
  exact like_bind hx fun a => like_pure (f a)

/-- What is evaluated comes out the same. The rest may rely on its being a value of `x`. -/
theorem like_eval {x : Eval α} (hx : x.Appends)
    (hf : ∀ a, (∃ log log', x log = .ok a log') → Like t R (f a) (g a)) :
    Like t R (.eval x >>= f) (.eval x >>= g) := by
  obtain ⟨r, notes, hr⟩ := hx
  intro st st' h
  cases r with
  | error e =>
    simp only [bind, EStateM.bind, Render.eval, hr]
    exact .alike (t.refl e)
  | ok a =>
    simp only [bind, EStateM.bind, Render.eval, hr]
    exact hf a ⟨st.log, st.log ++ notes, hr st.log⟩ _ _ h

theorem like_leaving {q q' : Option PendingBody} (hq : R q q') (h : Like t Q x y)
    (hs : Q st.pending st'.pending) :
    Matches t R (Render.leaving q x st) (Render.leaving q' y st') := by
  have hm := h st st' hs
  simp only [Render.leaving]
  generalize x st = p, y st' = p' at hm ⊢
  cases hm with
  | ok _ => exact .ok hq
  | alike h => exact .alike h
  | excused h => exact .excused h

/-- With a pending body of its own, a computation leaves the one before as it is. -/
theorem like_withPending {q q' : Option PendingBody} (hq : Q q q') (h : Like t Q x y) :
    Like t R (.withPending q x) (.withPending q' y) := fun _ _ hs => like_leaving hs h hq

/-- A helper that is told of a failure ends with it, so that both runs fail where one part does. -/
theorem like_within {part part' : Part → Option Value → Render String} {run : Run α}
    (hr : run.Propagates) (h : ∀ p context, Like t R (part p context) (part' p context)) :
    Like t R (run.within part) (run.within part') := by
  induction run with
  | done r => exact like_outcome r
  | render p context next ih =>
    intro st st' hs
    have hm := h p context st st' hs
    simp only [Run.within_render]
    generalize part p context st = q, part' p context st' = q' at hm ⊢
    cases hm with
    | ok hs => exact ih _ (hr.1 _) _ _ hs
    | @alike e e' st st' h =>
      obtain ⟨st₁, h₁⟩ := (hr.2 e).within part st
      obtain ⟨st₂, h₂⟩ := (hr.2 e').within part' st'
      simp only [h₁, h₂]
      exact .alike h
    | @excused e st r h =>
      obtain ⟨st₁, h₁⟩ := (hr.2 e).within part st
      simp only [h₁]
      exact .excused h
  | note message next ih => exact fun st st' hs => ih hr _ _ hs

/-- The two outcomes, when the first is no excused failure. -/
theorem Like.outcome (h : Like t R x y) (hs : R st.pending st'.pending)
    (hn : ∀ e, x.outcome st = .error e → ¬ t.excused e) :
    (∃ a, x.outcome st = .ok a ∧ y.outcome st' = .ok a) ∨
      ∃ e e', x.outcome st = .error e ∧ y.outcome st' = .error e' ∧ t.alike e e' := by
  have hm := h st st' hs
  simp only [Render.outcome] at hn ⊢
  generalize x st = p, y st' = q at hm hn ⊢
  cases hm with
  | @ok a _ _ _ => exact .inl ⟨a, rfl, rfl⟩
  | @alike e e' _ _ h => exact .inr ⟨e, e', rfl, rfl, h⟩
  | @excused e _ _ h => exact absurd h (hn e rfl)

/-- Where failures are alike only when they are the same, so are the outcomes. -/
theorem Like.outcome_eq (h : Like t R x y) (ht : ∀ e e', t.alike e e' → e = e')
    (hs : R st.pending st'.pending) (hn : ∀ e, x.outcome st = .error e → ¬ t.excused e) :
    y.outcome st' = x.outcome st := by
  rcases h.outcome hs hn with ⟨a, h₁, h₂⟩ | ⟨e, e', h₁, h₂, he⟩
  · exact h₂.trans h₁.symm
  · cases ht e e' he
    exact h₂.trans h₁.symm

theorem Like.outcome_exact (h : Like .exact R x y) (hs : R st.pending st'.pending) :
    y.outcome st' = x.outcome st :=
  h.outcome_eq (fun _ _ => id) hs fun _ _ => id

theorem Like.outcome_limited (h : Like .limited R x y) (hs : R st.pending st'.pending)
    (hn : ∀ name limit, x.outcome st ≠ .error (.nestingLimit name limit)) :
    y.outcome st' = x.outcome st := by
  refine h.outcome_eq (fun _ _ => id) hs ?_
  rintro _ he ⟨name, limit, rfl⟩
  exact hn name limit he

end
end TextTemplate
