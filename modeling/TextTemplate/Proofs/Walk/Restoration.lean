import TextTemplate.Proofs.Walk.Levels

/-! A node leaves the walker as it found it, whether it fails or not, with one exception: a pending
body that the nesting limit stops is lost. -/

namespace TextTemplate

variable {w w' : Walker} {events : List Event}

/-- How a node leaves the walker, given what happened meanwhile. -/
structure Restored (events : List Event) (w w' : Walker) : Prop where
  events_eq : w'.events = w.events ++ events
  setting : w'.setting = w.setting
  depth : w'.depth = w.depth
  kept : anyStops events = false → w'.pending = w.pending
  lost : anyStops events = true → w.pending.isSome ∧ w'.pending = none

namespace Restored

/-- Nothing changes but the log and the account, unless the limit stopped the pending body. -/
theorem eq_iff (h : Restored events w w') :
    w' = { w with log := w'.log, events := w'.events } ↔ anyStops events = false := by
  obtain ⟨-, hset, hd, hkept, hlost⟩ := h
  constructor
  · intro heq
    cases he : anyStops events with
    | false => rfl
    | true =>
      obtain ⟨hs, hn⟩ := hlost he
      rw [← congrArg Walker.pending heq, hn] at hs
      cases hs
  · intro he
    have hp := hkept he
    cases w
    cases w'
    cases hset
    cases hd
    cases hp
    rfl

end Restored

theorem Course.Taken.restored {α : Type} {c : Course α} {m : Walk (Outcome α)} {x : Render α}
    (h : c.Taken m x w) : Restored c.events w (c.walker w) := by
  refine ⟨rfl, rfl, rfl, ?_, ?_⟩
  · intro he
    simp [Course.walker, h.pending_eq, he]
  · intro he
    refine ⟨h.isSome he, ?_⟩
    simp [Course.walker, h.pending_eq, he]

/-- A walk that agrees with the renderer does not depend on what was logged before. -/
theorem Follows.map_fst {α : Type} {m : Walk (Outcome α)} {x : Render α} (h : Follows m x w)
    (log : List String) (events : List Event) :
    (m { w with log, events }).map (·.1) = (m w).map (·.1) := by
  obtain ⟨c, walks, -, -, -⟩ := h
  have hw := walks w.log w.events
  rw [walks log events, hw]
  rfl

namespace Walk

/-- How the renderer ends when the walk ends like this. -/
def ended {α : Type} (r : Outcome α) (w : Walker) : EStateM.Result EngineError RenderState α :=
  match r with
  | .ok a => .ok a ⟨w.pending, w.log⟩
  | .error e => .error e ⟨w.pending, w.log⟩

/-- Every node ends, as the renderer does, and puts everything back; what follows it is then shown
as if the node were not there. The exception is a pending body that the limit stopped. A walk may
go as deep as the limit, and further. -/
theorem node_restores (n : Node) (w : Walker) (further : Nat) :
    let inner := upTo (w.setting.engine.options.maxDepth - w.depth + further)
    ∃ r w' events, node inner n w = some (r, w') ∧
      renderNode (deeperAt w.setting.engine w.depth) w.setting n ⟨w.pending, w.log⟩ = ended r w' ∧
      Restored events w w' ∧
      (w' = { w with log := w'.log, events := w'.events } ↔ anyStops events = false) ∧
      (anyStops events = false →
        ∀ later, (nodes inner later w').map (·.1) = (nodes inner later w).map (·.1)) := by
  intro inner
  have hb : Below inner (deeperAt w.setting.engine w.depth) w.setting.engine w.depth :=
    below_deeperAt w.setting.engine (by omega)
  obtain ⟨c, hc⟩ := follows_node hb n w ⟨rfl, rfl, rfl⟩
  have hr := hc.restored
  refine ⟨c.outcome, c.walker w, c.events, hc.walks w.log w.events, ?_, hr, hr.eq_iff, ?_⟩
  · rw [hc.renders w.log]
    cases ho : c.outcome <;> simp [Course.ended, ended, Course.walker, ho]
  · intro he later
    rw [hr.eq_iff.2 he]
    exact (follows_nodes hb later w ⟨rfl, rfl, rfl⟩).map_fst _ _

/-- The exception occurs wherever a tag asks for the pending body at the limit. -/
theorem node_loses {p : PendingBody} (inner : List Node → Walk (Outcome String)) (i : Invocation)
    (body : Option (List Node)) (hp : w.pending = some p)
    (hd : w.setting.engine.options.maxDepth ≤ w.depth) :
    node inner (.partialTag ⟨.fixed partialBlockName, i, body⟩) w =
      some (.error (.nestingLimit partialBlockName w.setting.engine.options.maxDepth),
        { w with pending := none, events := w.events ++ [.stopped] }) := by
  have hname : eval (PartialName.eval · (.fixed partialBlockName)) w =
      some (.ok partialBlockName, w) := rfl
  have hstop : pendingBody inner p w = _ := pendingBody_of_le hd
  rw [node.eq_def]
  simp [hname, hp, hstop]

end Walk
end TextTemplate
