import TextTemplate.Evaluation

/-! What holds of all evaluation: it adds to the log and takes nothing from it. -/

namespace TextTemplate

/-- A property of computations that sequences keep, and that every helper of the engine has where it
is called without a block. -/
structure Pervasive (P : ∀ {α : Type}, Eval α → Prop) (e : Engine) : Prop where
  pure : ∀ {α : Type} (a : α), P (Pure.pure a : Eval α)
  bind : ∀ {α β : Type} {x : Eval α} {f : α → Eval β}, P x → (∀ a, P (f a)) → P (x >>= f)
  helper : ∀ {name : String} {h : Helper}, e.helpers.get? name = some h → ∀ c, P (h c).alone

namespace Pervasive
variable {P : ∀ {α : Type}, Eval α → Prop} {s : Setting}

mutual

theorem reference (hP : Pervasive P s.engine) : ∀ r : Reference, P (r.eval s)
  | .literal _ => hP.pure _
  | .path _ => hP.pure _
  | .call i => hP.bind (invocation hP i) fun _ => hP.pure _

theorem invocation (hP : Pervasive P s.engine) : ∀ i : Invocation, P (i.eval s)
  | ⟨some name, params, hash, _⟩ => by
    rw [Invocation.eval]
    cases hn : s.engine.helpers.get? name with
    | none => exact hP.pure _
    | some helper =>
      refine hP.bind (evalParams hP params) fun args => ?_
      refine hP.bind (evalHash hP hash []) fun hash => ?_
      exact hP.helper hn _
  | ⟨none, [], _, _⟩ => hP.pure _
  | ⟨none, p :: ps, hash, aliases⟩ => by
    rw [Invocation.eval]
    split
    · rename_i name _
      cases hn : s.engine.helpers.get? name with
      | none => exact hP.pure _
      | some helper => exact hP.helper hn _
    · exact hP.bind (reference hP p) fun _ => hP.pure _

theorem evalParams (hP : Pervasive P s.engine) :
    ∀ ps : List Reference, P (TextTemplate.evalParams s ps)
  | [] => hP.pure _
  | p :: ps => hP.bind (reference hP p) fun _ => hP.bind (evalParams hP ps) fun _ => hP.pure _

theorem evalHash (hP : Pervasive P s.engine) :
    ∀ (hash : List (String × Reference)) (d : Dict Value), P (TextTemplate.evalHash s hash d)
  | [], _ => hP.pure _
  | (_, r) :: rest, _ => hP.bind (reference hP r) fun _ => evalHash hP rest _

end

theorem subject (hP : Pervasive P s.engine) (i : Invocation) : P (i.subject s) := by
  rw [Invocation.subject]
  cases i.params with
  | nil => exact hP.pure _
  | cons p ps => exact hP.reference p

theorem test (hP : Pervasive P s.engine) (i : Invocation) (subject : Option Value) :
    P (s.test i subject) := by
  rw [Setting.test]
  cases i.hashValue? "includeZero" with
  | none => exact hP.pure _
  | some flag => exact hP.bind (hP.reference flag) fun _ => hP.pure _

theorem holds (hP : Pervasive P s.engine) (kind : BlockKind) (i : Invocation)
    (subject : Option Value) : P (s.holds kind i subject) := by
  cases kind with
  | ifTrue => exact hP.test i subject
  | ifFalse => exact hP.bind (hP.test i subject) fun _ => hP.pure _
  | each | withValue | plain | helper => exact hP.pure _

theorem partialName (hP : Pervasive P s.engine) (n : PartialName) : P (n.eval s) := by
  cases n with
  | fixed name => exact hP.pure _
  | computed call => exact hP.bind (hP.invocation call) fun _ => hP.pure _

end Pervasive

namespace Eval
variable {α β : Type} {x : Eval α} {f : α → Eval β} {r : Except EngineError α} {notes : List String}

/-- How a computation ends. -/
def ended (r : Except EngineError α) (log : List String) :
    EStateM.Result EngineError (List String) α :=
  match r with
  | .ok a => .ok a log
  | .error e => .error e log

/-- The outcome is the same for every log, and so are the messages added to it. -/
def Appends (x : Eval α) : Prop := ∃ r notes, ∀ log, x log = ended r (log ++ notes)

theorem appends_pure (a : α) : Appends (pure a) :=
  ⟨.ok a, [], fun log => by rw [List.append_nil]; rfl⟩

theorem appends_throw (e : EngineError) : Appends (throw e : Eval α) :=
  ⟨.error e, [], fun log => by rw [List.append_nil]; rfl⟩

theorem appends_bind (hx : Appends x) (hf : ∀ a, Appends (f a)) : Appends (x >>= f) := by
  obtain ⟨r, notes, hr⟩ := hx
  cases r with
  | error e =>
    refine ⟨.error e, notes, fun log => ?_⟩
    simp [bind, EStateM.bind, hr, ended]
  | ok a =>
    obtain ⟨q, more, hq⟩ := hf a
    refine ⟨q, notes ++ more, fun log => ?_⟩
    simp [bind, EStateM.bind, hr, ended, hq]

theorem appends_note {y : Eval α} (message : String) (hy : Appends y) :
    Appends (do modify (· ++ [message]); y) := by
  obtain ⟨r, notes, hr⟩ := hy
  refine ⟨r, message :: notes, fun log => ?_⟩
  have h := hr (log ++ [message])
  rw [List.append_assoc] at h
  exact h

end Eval

theorem Run.appends_alone {α : Type} (run : Run α) : run.alone.Appends := by
  induction run with
  | done r =>
    cases r with
    | ok a => exact Eval.appends_pure a
    | error e => exact Eval.appends_throw e
  | render part context next ih => exact ih _
  | note message next ih => exact Eval.appends_note message ih

theorem Eval.appends (e : Engine) : Pervasive Eval.Appends e where
  pure := appends_pure
  bind := appends_bind
  helper _ _ := Run.appends_alone _

end TextTemplate
