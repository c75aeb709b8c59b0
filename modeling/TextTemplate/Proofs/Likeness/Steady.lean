import TextTemplate.Proofs.Likeness.Node

/-! Where helpers return the failures of their parts, one step of a render does not get in the way of
the next: the log does not matter, and only a failure loses the pending body. -/

namespace TextTemplate

/-- This body is pending in both. -/
def Pendings.both (q : Option PendingBody) : Pendings := fun p p' => p = q ∧ p' = q

/-- Whatever was logged, the computation comes to the same end, and if it succeeds the same body is
pending as before. -/
def Steady {α : Type} (x : Render α) : Prop := ∀ q, Like .exact (.both q) x x

section
variable {α β : Type} {x : Render α} {f : α → Render β} {e : Engine} {extra : Option Value}
variable {deeper : Option Renderer} {s : Setting} {q : Option PendingBody}

theorem steady_pure (a : α) : Steady (pure a) := fun _ => like_pure a

theorem Steady.bind (hx : Steady x) (hf : ∀ a, Steady (f a)) : Steady (x >>= f) := fun q =>
  like_bind (hx q) fun a => hf a q

theorem Steady.outcome_log (hx : Steady x) (p : Option PendingBody) (log log' : List String) :
    x.outcome ⟨p, log⟩ = x.outcome ⟨p, log'⟩ := by
  have hboth : Pendings.both p (RenderState.mk p log').pending (RenderState.mk p log).pending :=
    ⟨rfl, rfl⟩
  exact (hx p).outcome_exact hboth

/-- The second computation might as well start from where the first one did. -/
theorem Steady.outcome_bind (hx : Steady x) (hf : ∀ a, Steady (f a)) (st : RenderState) :
    (x >>= f).outcome st = x.outcome st >>= fun a => (f a).outcome st := by
  have hm := hx st.pending st st ⟨rfl, rfl⟩
  simp only [Render.outcome, Bind.bind, EStateM.bind]
  generalize x st = r at hm ⊢
  cases hm with
  -- Only the log has changed since, and `f` does not depend on it.
  | ok h => exact (hf _ _).outcome_exact ⟨rfl, h.1⟩
  | alike => rfl
  | excused h => cases h

/-- A tag puts back the body that it shows. -/
theorem like_shown_both {t : Tolerance} (hl : LikeLevels t Eq e e extra Eq deeper deeper)
    (hs : s.Of e extra) {fallback fallback' : Render String}
    (hf : Like t (.both q) fallback fallback') :
    Like t (.both q) (shown deeper s fallback) (shown deeper s fallback') := by
  rintro st st' ⟨h, h'⟩
  simp only [shown, Render.takePending_bind, h, h']
  cases q with
  | none => exact hf _ _ ⟨rfl, rfl⟩
  | some p =>
    cases hl with
    | deeper hgo =>
      let there : Setting := { s with scope := p.scope, defined := p.defined }
      have h := hgo p.nodes p.nodes rfl there hs
      simp only [under_self (s := there) hs] at h
      exact like_leaving ⟨rfl, rfl⟩ h rfl
    | reached => exact .alike (t.refl _)
    | excused hx =>
      obtain ⟨rfl, -⟩ := hs
      exact .excused (hx partialBlockName)

theorem likeBelow_both (he : e.Propagates) (extra : Option Value) (left : Nat)
    (q : Option PendingBody) :
    LikeBelow .exact (.both q) e e extra True (levelsBelow left) (levelsBelow left) := by
  refine likeBelow_levels (kin_refl e) he (.inl ⟨rfl, fun _ => rfl⟩) ?_
  rintro - k k' - (⟨rfl, -⟩ | ⟨-, h⟩) s hs fallback fallback' hf
  · rw [under_self hs]
    refine like_shown_both (likeLevels (.inl ⟨rfl, fun _ => rfl⟩) ?_) hs hf
    rintro k k' - - h ns _ rfl
    exact like_renderer (kin_refl e) he h ns
  · cases h ""

theorem steady_node (he : s.engine.Propagates) (left : Nat) (n : Node) :
    Steady (renderNode (levelsBelow left) s n) := by
  intro q
  have h := like_node (likeBelow_both he s.extra left q) ⟨rfl, rfl⟩ n (.inl trivial)
  rwa [under_self ⟨rfl, rfl⟩] at h

theorem steady_renderer (he : s.engine.Propagates) (left : Nat) (ns : List Node) :
    Steady (renderer left s ns) := by
  intro q
  have h := like_nodes (likeBelow_both he s.extra left q) ⟨rfl, rfl⟩ ns (.inl trivial)
  rwa [under_self ⟨rfl, rfl⟩, ← renderer_eq] at h

end
end TextTemplate
