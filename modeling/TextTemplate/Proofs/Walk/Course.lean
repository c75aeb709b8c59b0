import TextTemplate.Proofs.Evaluation
import TextTemplate.Proofs.Walk.Basic

/-! What it takes for a walk to do what a computation of the renderer does, and the rules by which
walks that do are put together. -/

namespace TextTemplate

variable {a b : Event} {es fs : List Event}

@[simp] theorem anyStops_append : anyStops (es ++ fs) = (anyStops es || anyStops fs) := by
  induction es with
  | nil => rfl
  | cons e es ih => simp [anyStops, ih, Bool.or_assoc]

@[simp] theorem anyStops_singleton : anyStops [a] = a.stops := by simp [anyStops]

/-- What a walk comes to: its outcome, what is pending then, and what it adds to the log and to
the account of events. -/
structure Course (α : Type) where
  outcome : Outcome α
  pending : Option PendingBody
  notes : List String
  events : List Event

namespace Course
variable {α : Type}

/-- The walker afterwards. Scopes, partials and depth are those of before. -/
def walker (c : Course α) (w : Walker) : Walker :=
  { w with pending := c.pending, log := w.log ++ c.notes, events := w.events ++ c.events }

/-- The same end, as the renderer gives it. -/
def ended (c : Course α) (log : List String) : EStateM.Result EngineError RenderState α :=
  match c.outcome with
  | .ok a => .ok a ⟨c.pending, log ++ c.notes⟩
  | .error e => .error e ⟨c.pending, log ++ c.notes⟩

/-- From `w`, the walk `m` and the computation `x` both take this course, whatever was logged
before. The pending body is lost exactly when the limit stopped it. -/
structure Taken (c : Course α) (m : Walk (Outcome α)) (x : Render α) (w : Walker) : Prop where
  walks : ∀ log events, m { w with log, events } = some (c.outcome, c.walker { w with log, events })
  renders : ∀ log, x ⟨w.pending, log⟩ = c.ended log
  pending_eq : c.pending = if anyStops c.events then none else w.pending
  isSome : anyStops c.events → w.pending.isSome

end Course

/-- From `w`, the walk `m` ends, and as the computation `x` does. -/
def Follows {α : Type} (m : Walk (Outcome α)) (x : Render α) (w : Walker) : Prop :=
  ∃ c : Course α, c.Taken m x w

section
variable {α β : Type} {m : Walk (Outcome α)} {x : Render α} {w : Walker}

theorem follows_outcome (r : Outcome α) : Follows (pure r) (.ofExcept r) w := by
  refine ⟨⟨r, w.pending, [], []⟩, ?_, ?_, rfl, nofun⟩
  · intro log events
    simp [Course.walker]
  · intro log
    cases r <;> simp only [Course.ended, List.append_nil] <;> rfl

theorem follows_pure (a : α) : Follows (pure (.ok a)) (pure a) w := follows_outcome (.ok a)

/-- A failure ends both; otherwise both go on, perhaps without the pending body. -/
theorem follows_bind {k : Outcome α → Walk (Outcome β)} {f : α → Render β} (hm : Follows m x w)
    (he : ∀ e, k (.error e) = pure (.error e))
    (hk : ∀ a pending, Follows (k (.ok a)) (f a) { w with pending }) :
    Follows (do let r ← m; k r) (x >>= f) w := by
  obtain ⟨⟨r, p, notes, events⟩, walks, renders, hp, hs⟩ := hm
  cases r with
  | error e =>
    refine ⟨⟨.error e, p, notes, events⟩, ?_, ?_, hp, hs⟩
    · intro log before
      simp [walks, he, Course.walker]
    · intro log
      simp only [bind, EStateM.bind, renders]
      rfl
  | ok a =>
    obtain ⟨⟨q, p', notes', events'⟩, walks', renders', hp', hs'⟩ := hk a p
    refine ⟨⟨q, p', notes ++ notes', events ++ events'⟩, ?_, ?_, ?_, ?_⟩
    · intro log before
      have h := walks' (log ++ notes) (before ++ events)
      simpa [walks, Course.walker] using h
    · intro log
      have h := renders' (log ++ notes)
      simp only [bind, EStateM.bind, renders, Course.ended, List.append_assoc] at h ⊢
      exact h
    · dsimp only at hp hp' ⊢
      rw [hp', hp, anyStops_append]
      cases anyStops events <;> cases anyStops events' <;> rfl
    · dsimp only at hp hs hs' ⊢
      rw [anyStops_append, Bool.or_eq_true]
      rintro (h | h)
      · exact hs h
      · rw [hp] at hs'
        cases he : anyStops events with
        | true => exact hs he
        | false => simpa [he] using hs' h

theorem follows_map {k : Outcome α → Walk (Outcome β)} (f : α → β) (hm : Follows m x w)
    (he : ∀ e, k (.error e) = pure (.error e)) (hk : ∀ a, k (.ok a) = pure (.ok (f a))) :
    Follows (do let r ← m; k r) (f <$> x) w := by
  rw [map_eq_pure_bind]
  refine follows_bind hm he fun a pending => ?_
  rw [hk]
  exact follows_pure (f a)

/-- A step that does nothing but read the state. -/
theorem follows_get {k : Walker → Walk (Outcome α)} (h : Follows (k w) x w)
    (hk : ∀ log events, k { w with log, events } = k w) : Follows (do let w ← get; k w) x w := by
  obtain ⟨c, walks, renders, hp, hs⟩ := h
  refine ⟨c, ?_, renders, hp, hs⟩
  intro log events
  have h := walks log events
  rw [← hk log events] at h
  exact h

theorem follows_eval {f : Setting → Eval α} {s : Setting} (h : Eval.Appends (f s))
    (hs : w.setting = s) : Follows (Walk.eval f) (.eval (f s)) w := by
  subst hs
  obtain ⟨r, notes, hr⟩ := h
  refine ⟨⟨r, w.pending, notes, []⟩, ?_, ?_, rfl, nofun⟩
  · intro log events
    simp only [Walk.eval, hr, Course.walker, List.append_nil]
    cases r <;> rfl
  · intro log
    simp only [Render.eval, hr, Course.ended]
    cases r <;> rfl

theorem follows_note (message : String) (h : Follows m x w) :
    Follows (do Walk.note message; m)
      (do modify fun st => { st with log := st.log ++ [message] }; x) w := by
  obtain ⟨c, walks, renders, hp, hs⟩ := h
  refine ⟨{ c with notes := message :: c.notes }, ?_, ?_, hp, hs⟩
  · intro log events
    have h := walks (log ++ [message]) events
    simpa [Course.walker] using h
  · intro log
    have h := renders (log ++ [message])
    simp only [Course.ended, List.append_assoc] at h
    exact h

/-- The failure of one step is news to the next. -/
theorem follows_attempt {k : Outcome α → Walk (Outcome β)} {f : Except EngineError α → Render β}
    (hm : Follows m x w) (hk : ∀ r pending, Follows (k r) (f r) { w with pending }) :
    Follows (do let r ← m; k r) (do let r ← x.attempt; f r) w := by
  have h : Follows (do let r ← m; pure (.ok r)) x.attempt w := by
    obtain ⟨⟨r, p, notes, events⟩, walks, renders, hp, hs⟩ := hm
    refine ⟨⟨.ok r, p, notes, events⟩, ?_, ?_, hp, hs⟩
    · intro log before
      simp [walks, Course.walker]
    · intro log
      simp only [Render.attempt, renders]
      cases r <;> rfl
  let next : Outcome (Outcome α) → Walk (Outcome β)
    | .error e => pure (.error e)
    | .ok r => k r
  have h := follows_bind (k := next) h (fun _ => rfl) hk
  simpa only [bind_assoc, pure_bind] using h

/-- Scopes and partials that are put back leave no trace. -/
theorem follows_inside {f g : Setting → Setting} (hg : g (f w.setting) = w.setting)
    (h : Follows m x { w with setting := f w.setting }) :
    Follows (do Walk.change f; let r ← m; Walk.change g; pure r) x w := by
  obtain ⟨c, walks, renders, hp, hs⟩ := h
  refine ⟨c, ?_, renders, hp, hs⟩
  intro log events
  have h := walks log events
  simp only [Course.walker] at h
  simp [h, hg, Course.walker]

/-- An account of its own, filed as one event that stops what its own events stop. -/
theorem follows_filed {event : List Event → Event} (he : ∀ es, (event es).stops = anyStops es)
    (h : Follows m x w) :
    Follows (Walk.filed event m) x w := by
  obtain ⟨c, walks, renders, hp, hs⟩ := h
  refine ⟨{ c with events := [event c.events] }, ?_, renders, ?_, ?_⟩
  · intro log events
    have h := walks log []
    simp only [Course.walker, List.nil_append] at h
    simp [Walk.filed, h, Course.walker]
  · rw [anyStops_singleton, he]
    exact hp
  · rw [anyStops_singleton, he]
    exact hs

/-- `deeper` is what the nesting limit leaves to the walker. -/
def Leaves (deeper : Option Renderer) (w : Walker) : Prop :=
  deeper = none ↔ w.setting.engine.options.maxDepth ≤ w.depth

theorem follows_descend {deeper : Option Renderer} {f : Renderer → Render α} {name : String}
    {k : Outcome Unit → Walk (Outcome α)} (hl : Leaves deeper w)
    (he : ∀ e, k (.error e) = pure (.error e))
    (hk : k (.ok ()) = (do let r ← m; Walk.ascend; pure r))
    (h : ∀ go, deeper = some go → Follows m (f go) { w with depth := w.depth + 1 }) :
    Follows (do let r ← Walk.descend name; k r)
      (do let go ← w.setting.descend deeper name; f go) w := by
  cases deeper with
  | none =>
    have hd := hl.1 rfl
    let stopped := EngineError.nestingLimit name w.setting.engine.options.maxDepth
    refine ⟨⟨.error stopped, w.pending, [], []⟩, ?_, ?_, rfl, nofun⟩
    · intro log events
      simp [Walk.descend_of_le { w with log, events } name hd, he, Course.walker, stopped]
    · intro log
      simp only [Course.ended, List.append_nil]
      rfl
  | some go =>
    have hd : w.depth < w.setting.engine.options.maxDepth := by
      apply Nat.lt_of_not_le
      intro hd
      cases hl.2 hd
    obtain ⟨c, walks, renders, hp, hs⟩ := h go rfl
    refine ⟨c, ?_, renders, hp, hs⟩
    intro log events
    have h := walks log events
    simp [Walk.descend_of_lt { w with log, events } name hd, hk, h, Course.walker]

end
end TextTemplate
