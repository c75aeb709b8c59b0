import TextTemplate.Proofs.Likeness.Block
import TextTemplate.Proofs.Occurrence

/-! The same nodes rendered for two engines, and the levels that their nesting limits leave. -/

namespace TextTemplate

/-- The tag may turn out to bear this name. -/
def PartialName.MayBe (n : PartialName) (e : Engine) (extra : Option Value) (name : String) :
    Prop :=
  ∃ s log log', Setting.Of s e extra ∧ n.eval s log = .ok name log'

/-- No tag among the nodes asks for the pending body, whatever is pending. -/
def Silent (e : Engine) (extra : Option Value) (ns : List Node) : Prop :=
  ∀ name i body, Node.Within (.partialTag ⟨name, i, body⟩) ns →
    ¬ name.MayBe e extra partialBlockName

/-- What a tag shows that asks for the pending body. -/
def shown (deeper : Option Renderer) (s : Setting) (fallback : Render String) : Render String := do
  match ← .takePending with
  | some p => renderPending deeper s p
  | none => fallback

/-- A partial tag, with what it shows for want of a partial. -/
def renderTag (deeper : Option Renderer) (s : Setting) (name : PartialName) (i : Invocation)
    (body : Option (List Node)) (fallback : Render String) : Render String := do
  let name ← .eval (name.eval s)
  if name = partialBlockName then shown deeper s fallback
  else
    match s.partial? name with
    | some target => renderPartial deeper s name i body target
    | none => fallback

theorem renderNode_partialTag (deeper : Option Renderer) (s : Setting) (name : PartialName)
    (i : Invocation) (body : Option (List Node)) :
    renderNode deeper s (.partialTag ⟨name, i, body⟩) =
      renderTag deeper s name i body (body.elim (pure "") (renderNodes deeper s)) := by
  cases body <;> rw [renderNode] <;> rfl

/-- What two nesting limits leave below a node. Lists that `N` relates come to the same end there,
unless the first limit is reached and its failure tolerated. -/
inductive LikeLevels (t : Tolerance) (R : Pendings) (e e' : Engine) (extra : Option Value)
    (N : List Node → List Node → Prop) : Option Renderer → Option Renderer → Prop
  | deeper {go go' : Renderer}
      (h : ∀ ns ns', N ns ns' → LikeIn t R e e' extra (go · ns) (go' · ns')) :
      LikeLevels t R e e' extra N (some go) (some go')
  | reached
      (h : ∀ name, t.alike (.nestingLimit name e.options.maxDepth)
        (.nestingLimit name e'.options.maxDepth)) :
      LikeLevels t R e e' extra N none none
  | excused {deeper' : Option Renderer}
      (h : ∀ name, t.excused (.nestingLimit name e.options.maxDepth)) :
      LikeLevels t R e e' extra N none deeper'

section
variable {α : Type} {t : Tolerance} {R Q : Pendings} {e e' : Engine} {extra : Option Value}
variable {N : List Node → List Node → Prop} {deeper deeper' : Option Renderer} {s : Setting}

theorem like_descend (hl : LikeLevels t R e e' extra N deeper deeper') (hs : s.Of e extra)
    (name : String) {f f' : Renderer → Render α}
    (hf : ∀ go go', (∀ ns ns', N ns ns' → LikeIn t R e e' extra (go · ns) (go' · ns')) →
      Like t Q (f go) (f' go')) :
    Like t Q (do let go ← s.descend deeper name; f go)
      (do let go ← (s.under e').descend deeper' name; f' go) := by
  obtain ⟨rfl, -⟩ := hs
  cases hl with
  | deeper h => exact hf _ _ h
  | reached h => exact fun _ _ _ => .alike (h name)
  | excused h => exact fun _ _ _ => .excused (h name)

/-- A body that is pending in both comes to the same end in both. -/
theorem like_shown (hl : LikeLevels t Eq e e' extra Eq deeper deeper') (hs : s.Of e extra)
    {fallback fallback' : Render String} (hf : Like t Eq fallback fallback') :
    Like t Eq (shown deeper s fallback) (shown deeper' (s.under e') fallback') := by
  intro st st' h
  simp only [shown, Render.takePending_bind]
  rw [← h]
  cases st.pending with
  | none => exact hf _ _ rfl
  | some p =>
    refine like_descend (Q := Eq) hl hs partialBlockName (fun go go' hgo => ?_) _ _ rfl
    exact fun st st' h => like_leaving rfl (hgo _ _ rfl _ hs) h

/-- How the same nodes are rendered in two engines. Pending bodies come to the same end where nodes
may ask for them at all. -/
structure LikeBelow (t : Tolerance) (R : Pendings) (e e' : Engine) (extra : Option Value)
    (asking : Prop) (deeper deeper' : Option Renderer) : Prop where
  kin : Kin e e'
  propagates : e.Propagates
  same : LikeLevels t R e e' extra (fun ns ns' => ns' = ns ∧ (asking ∨ Silent e extra ns))
    deeper deeper'
  fresh : LikeLevels t Eq e e' extra Eq deeper deeper'
  shows : asking → ∀ s, s.Of e extra → ∀ fallback fallback', Like t R fallback fallback' →
    Like t R (shown deeper s fallback) (shown deeper' (s.under e') fallback')

variable {asking : Prop}

/-- The nodes of a partial have a pending body of their own. -/
theorem like_partial (hb : LikeBelow t R e e' extra asking deeper deeper') (hs : s.Of e extra)
    (name : String) (i : Invocation) (body : Option (List Node)) (target : Registered) :
    Like t R (renderPartial deeper s name i body target)
      (renderPartial deeper' (s.under e') name i body target) := by
  obtain ⟨rfl, rfl⟩ := hs
  rw [renderPartial_eq, renderPartial_eq, hb.kin.contextFor, hb.kin.evalHash]
  refine like_eval ((Eval.appends _).contextFor i) fun context _ => ?_
  refine like_eval ((Eval.appends _).evalHash i.hash []) fun hash _ => ?_
  cases target with
  | native f => exact like_outcome (f context)
  | template p =>
    refine like_withPending (Q := Eq) rfl ?_
    refine like_descend hb.fresh ⟨rfl, rfl⟩ name fun go go' hgo => ?_
    rw [hb.kin.enter]
    exact hgo _ _ rfl _ ⟨rfl, rfl⟩

theorem like_tag (hb : LikeBelow t R e e' extra asking deeper deeper') (hs : s.Of e extra)
    (name : PartialName) (i : Invocation) (body : Option (List Node))
    (ha : asking ∨ ¬ name.MayBe e extra partialBlockName) {fallback fallback' : Render String}
    (hf : Like t R fallback fallback') :
    Like t R (renderTag deeper s name i body fallback)
      (renderTag deeper' (s.under e') name i body fallback') := by
  have hk : Kin s.engine e' := by
    rw [hs.1]
    exact hb.kin
  rw [renderTag, renderTag, hk.partialName]
  refine like_eval ((Eval.appends _).partialName name) fun called hc => ?_
  by_cases hn : called = partialBlockName
  · subst hn
    simp only [if_true]
    rcases ha with ha | ha
    · exact hb.shows ha s hs _ _ hf
    · obtain ⟨log, log', hc⟩ := hc
      exact absurd ⟨s, log, log', hs, hc⟩ ha
  · simp only [hn, if_false, hk.partial?]
    cases s.partial? called with
    | none => exact hf
    | some target => exact like_partial hb hs called i body target

theorem Silent.mono {ns ms : List Node} (h : Silent e extra ns) (hs : ms ⊆ ns) :
    Silent e extra ms := fun name i body hw => h name i body (hw.mono hs)

theorem Silent.branches {b : Block} (h : Silent e extra [.block b]) :
    Silent e extra b.body ∧ ∀ a ∈ b.alternates, Silent e extra a.body := by
  constructor
  · intro name i body hw
    exact h name i body (.body (List.mem_singleton_self _) hw)
  · intro a ha name i body hw
    exact h name i body (.alternate (List.mem_singleton_self _) ha hw)

mutual

theorem like_node (hb : LikeBelow t R e e' extra asking deeper deeper') (hs : s.Of e extra) :
    ∀ n, asking ∨ Silent e extra [n] →
      Like t R (renderNode deeper s n) (renderNode deeper' (s.under e') n)
  | .text text, _ => by
    rw [renderNode, renderNode]
    exact like_pure text
  | .value i escaped, _ => by
    obtain ⟨rfl, -⟩ := hs
    rw [renderNode, renderNode, hb.kin.invocation, hb.kin.emit]
    exact like_eval ((Eval.appends _).invocation i) fun out _ => like_pure _
  | .block b, ha => by
    rw [renderNode, renderNode]
    have hbody : asking ∨ Silent e extra b.body := ha.imp_right (·.branches.1)
    have halt : ∀ a ∈ b.alternates, asking ∨ Silent e extra a.body :=
      fun a h => ha.imp_right (·.branches.2 a h)
    refine like_descend hb.same hs b.name fun go go' hgo => ?_
    refine like_block hb.kin hb.propagates rfl rfl (hgo _ _ ⟨rfl, hbody⟩) ?_ hs
    exact List.forall₂_same.2 fun a h => ⟨rfl, hgo _ _ ⟨rfl, halt a h⟩⟩
  | .partialTag ⟨name, i, some body⟩, ha => by
    have hname : asking ∨ ¬ name.MayBe e extra partialBlockName :=
      ha.imp_right fun h => h name i _ (.here (List.mem_singleton_self _))
    have hbody : asking ∨ Silent e extra body := ha.imp_right fun h name' i' body' hw =>
      h name' i' body' (.partialBody (List.mem_singleton_self _) hw)
    rw [renderNode_partialTag, renderNode_partialTag]
    exact like_tag hb hs name i (some body) hname (like_nodes hb hs body hbody)
  | .partialTag ⟨name, i, none⟩, ha => by
    have hname : asking ∨ ¬ name.MayBe e extra partialBlockName :=
      ha.imp_right fun h => h name i _ (.here (List.mem_singleton_self _))
    rw [renderNode_partialTag, renderNode_partialTag]
    exact like_tag hb hs name i none hname (like_pure "")

theorem like_nodes (hb : LikeBelow t R e e' extra asking deeper deeper') (hs : s.Of e extra) :
    ∀ ns, asking ∨ Silent e extra ns →
      Like t R (renderNodes deeper s ns) (renderNodes deeper' (s.under e') ns)
  | [], _ => by
    rw [renderNodes, renderNodes]
    exact like_pure ""
  | n :: ns, ha => by
    rw [renderNodes, renderNodes, hb.kin.hooked s hs.1]
    have hn : asking ∨ Silent e extra [n] := ha.imp_right (·.mono (by simp))
    have hns : asking ∨ Silent e extra ns := ha.imp_right (·.mono (by simp))
    refine like_bind (like_node hb hs n hn) fun out => ?_
    exact like_bind (like_nodes hb hs ns hns) fun outs => like_pure _

end

theorem LikeLevels.mono {N' : List Node → List Node → Prop}
    (h : LikeLevels t R e e' extra N deeper deeper') (hN : ∀ ns ns', N' ns ns' → N ns ns') :
    LikeLevels t R e e' extra N' deeper deeper' := by
  cases h with
  | deeper h => exact .deeper fun ns ns' hn => h ns ns' (hN ns ns' hn)
  | reached h => exact .reached h
  | excused h => exact .excused h

/-- The same pending body in both may be asked for anywhere. -/
theorem likeBelow_eq (hk : Kin e e') (he : e.Propagates)
    (hl : LikeLevels t Eq e e' extra Eq deeper deeper') :
    LikeBelow t Eq e e' extra True deeper deeper' where
  kin := hk
  propagates := he
  same := hl.mono fun _ _ h => h.1.symm
  fresh := hl
  shows _ _ hs _ _ hf := like_shown hl hs hf

/-- What is below a node when so many levels are left. -/
def levelsBelow : Nat → Option Renderer
  | 0 => none
  | left + 1 => some (renderer left)

theorem renderer_eq (left : Nat) : renderer left = renderNodes (levelsBelow left) := by
  cases left <;> rfl

/-- So many levels are left in one engine and in the other: as many, or more in the other where the
failure at the limit is excused. -/
def Tolerance.Spans (t : Tolerance) (e e' : Engine) (left left' : Nat) : Prop :=
  (left = left' ∧ ∀ name, t.alike (.nestingLimit name e.options.maxDepth)
    (.nestingLimit name e'.options.maxDepth)) ∨
  (left ≤ left' ∧ ∀ name, t.excused (.nestingLimit name e.options.maxDepth))

theorem likeLevels {left left' : Nat} (h : t.Spans e e' left left')
    (hgo : ∀ k k', left = k + 1 → left' = k' + 1 → t.Spans e e' k k' → ∀ ns ns', N ns ns' →
      LikeIn t R e e' extra (renderer k · ns) (renderer k' · ns')) :
    LikeLevels t R e e' extra N (levelsBelow left) (levelsBelow left') := by
  cases left with
  | zero =>
    rcases h with ⟨rfl, h⟩ | ⟨-, h⟩
    · exact .reached h
    · exact .excused h
  | succ k =>
    cases left' with
    | zero => rcases h with ⟨h, -⟩ | ⟨h, -⟩ <;> omega
    | succ k' =>
      refine .deeper (hgo k k' rfl rfl ?_)
      exact h.imp (And.imp_left (by omega)) (And.imp_left (by omega))

/-- The same nodes come to the same end, where the same body is pending. -/
theorem like_renderer (hk : Kin e e') (he : e.Propagates) {left left' : Nat}
    (h : t.Spans e e' left left') (ns : List Node) :
    LikeIn t Eq e e' extra (renderer left · ns) (renderer left' · ns) := by
  induction left generalizing left' ns with
  | zero =>
    intro s hs
    rw [renderer_eq, renderer_eq]
    exact like_nodes (likeBelow_eq hk he (likeLevels h nofun)) hs ns (.inl trivial)
  | succ left ih =>
    intro s hs
    rw [renderer_eq, renderer_eq]
    refine like_nodes (likeBelow_eq hk he (likeLevels h ?_)) hs ns (.inl trivial)
    rintro _ k' ⟨⟩ rfl h ns _ rfl
    exact ih h ns

/-- Other bodies may be pending, as far as asking for them comes to the same end on all levels. -/
theorem likeBelow_levels (hk : Kin e e') (he : e.Propagates) {left left' : Nat}
    (h : t.Spans e e' left left')
    (hshows : asking → ∀ k k', k ≤ left → t.Spans e e' k k' → ∀ s, s.Of e extra →
      ∀ fallback fallback', Like t R fallback fallback' →
        Like t R (shown (levelsBelow k) s fallback)
          (shown (levelsBelow k') (s.under e') fallback')) :
    LikeBelow t R e e' extra asking (levelsBelow left) (levelsBelow left') := by
  have hfresh : LikeLevels t Eq e e' extra Eq (levelsBelow left) (levelsBelow left') := by
    refine likeLevels h ?_
    rintro k k' - - h ns _ rfl
    exact like_renderer hk he h ns
  induction left generalizing left' with
  | zero =>
    refine ⟨hk, he, likeLevels h nofun, hfresh, ?_⟩
    exact fun hask => hshows hask 0 left' (Nat.le_refl 0) h
  | succ left ih =>
    refine ⟨hk, he, likeLevels h ?_, hfresh, ?_⟩
    · rintro _ k' ⟨⟩ rfl h _ ns ⟨rfl, ha⟩ s hs
      rw [renderer_eq, renderer_eq]
      refine like_nodes (ih h (fun hask k k' hle => hshows hask k k' (by omega)) ?_) hs ns ha
      refine likeLevels h ?_
      rintro k k' - - h ns _ rfl
      exact like_renderer hk he h ns
    · exact fun hask => hshows hask _ left' (Nat.le_refl _) h

theorem under_self (hs : s.Of e extra) : s.under e = s := by
  obtain ⟨rfl, -⟩ := hs
  rfl

/-- Whatever is pending, the computation comes to the same end. -/
def Unasking {α : Type} (x : Render α) : Prop := Like .exact (fun _ _ => True) x x

theorem unasking_renderer (he : e.Propagates) (left : Nat) {ns : List Node}
    (h : Silent e extra ns) (hs : s.Of e extra) : Unasking (renderer left s ns) := by
  have hspans : Tolerance.exact.Spans e e left left := .inl ⟨rfl, fun _ => rfl⟩
  have hb : LikeBelow .exact (fun _ _ => True) e e extra False (levelsBelow left)
      (levelsBelow left) := likeBelow_levels (kin_refl e) he hspans False.elim
  have hl := like_nodes hb hs ns (.inr h)
  rwa [under_self hs, ← renderer_eq] at hl

end

namespace Walker
variable {w : Walker} {ns : List Node}

/-- Nodes as they are rendered where the walker stands. -/
def direct (w : Walker) (ns : List Node) : Render String :=
  renderNodes (deeperAt w.setting.engine w.depth) w.setting ns

/-- What they come to. -/
def directly (w : Walker) (ns : List Node) : Outcome String :=
  (w.direct ns).outcome ⟨w.pending, w.log⟩

/-- The levels that are left there. -/
def levels (w : Walker) : Nat := w.setting.engine.options.maxDepth - w.depth

theorem deeperAt_eq (w : Walker) : deeperAt w.setting.engine w.depth = levelsBelow w.levels := by
  rw [deeperAt, levels]
  cases w.setting.engine.options.maxDepth - w.depth <;> rfl

theorem direct_eq (w : Walker) (ns : List Node) : w.direct ns = renderer w.levels w.setting ns := by
  rw [direct, deeperAt_eq, ← renderer_eq]

theorem unasking_direct (he : w.setting.engine.Propagates)
    (h : Silent w.setting.engine w.setting.extra ns) : Unasking (w.direct ns) := by
  rw [direct_eq]
  exact unasking_renderer he w.levels h ⟨rfl, rfl⟩

end Walker

theorem Engine.result_render (e : Engine) (t : Template) (data : Value) (extra : Option Value) :
    (e.render t data extra).result = (Walker.start e t data extra).directly t.nodes := by
  have hlevels : (Walker.start e t data extra).levels = e.options.maxDepth := Nat.sub_zero _
  rw [render, Walker.directly, Walker.direct_eq, hlevels, Render.outcome, Walker.start]
  generalize renderer _ _ _ _ = r
  cases r <;> rfl

end TextTemplate
