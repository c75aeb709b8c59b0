import TextTemplate.Proofs.PartialScope

/-! The body of a partial tag is rendered where it was written: the partial comes to the same with
the text that the body has there. -/

namespace TextTemplate

mutual

/-- The node with a text in place of the tags that show the pending body. The bodies of partial tags
stay as they are. -/
def Node.fill (out : String) : Node → Node
  | .block ⟨name, i, negated, body, alternates⟩ =>
    .block ⟨name, i, negated, fillNodes out body, fillAlternates out alternates⟩
  | .partialTag ⟨.fixed name, i, body⟩ =>
    if name = partialBlockName then .text out else .partialTag ⟨.fixed name, i, body⟩
  | n => n

def fillNodes (out : String) : List Node → List Node
  | [] => []
  | n :: ns => n.fill out :: fillNodes out ns

def fillAlternates (out : String) : List Alternate → List Alternate
  | [] => []
  | ⟨condition, body⟩ :: rest => ⟨condition, fillNodes out body⟩ :: fillAlternates out rest

end

/-- Fills the template's own nodes. The partials that it defines stay as they are. -/
def Template.fill (t : Template) (out : String) : Template :=
  { t with nodes := fillNodes out t.nodes }

/-- Failures are the same, but anything may follow one at the nesting limit, or the failure of a
body that comes to `r`. -/
def Tolerance.showing (r : Outcome String) : Tolerance where
  excused e := Tolerance.limited.excused e ∨ r = .error e
  alike := Eq
  refl _ := rfl

namespace Walker

/-- A body that is written where the walker stands. -/
def written (w : Walker) (ns : List Node) : PendingBody :=
  ⟨ns, w.setting.scope, w.setting.defined⟩

/-- The body may be pending in place of the text: if it is rendered where the walker stands, that is
what it comes to, whatever is pending. -/
structure Exchangeable (w : Walker) (body : List Node) (out : String) : Prop where
  propagates : w.setting.engine.Propagates
  unhooked : w.setting.engine.options.renderHook = none
  unasking : Unasking (w.direct body)
  eq_out : ∀ a, w.directly body = .ok a → a = out

/-- The body is pending in one computation, and the text in the other. -/
def Exchanges (w : Walker) (body : List Node) (out : String) : Pendings := fun p p' =>
  p = some (w.written body) ∧ p' = some (w.written [.text out])

end Walker

section
variable {w : Walker} {body : List Node} {out : String} {s : Setting} {st : RenderState}

/-- Deeper in a partial the body comes to the same as where it was written, unless the nesting limit
stops it. -/
theorem written_outcome (hw : w.Exchangeable body out) {left : Nat} (hl : left ≤ w.levels)
    (log : List String) {a : Outcome String} (ha : (renderer left w.setting body).outcome ⟨none, log⟩ = a)
    (hn : ∀ name limit, a ≠ .error (.nestingLimit name limit)) : w.directly body = a := by
  subst ha
  have hspans : Tolerance.limited.Spans w.setting.engine w.setting.engine left
      w.levels := .inr ⟨hl, fun name => ⟨name, _, rfl⟩⟩
  have hlike := like_renderer (kin_refl _) hw.propagates hspans body w.setting ⟨rfl, rfl⟩
  have hraised := hlike.outcome_limited rfl hn
  have hsame : w.directly body = (w.direct body).outcome ⟨none, log⟩ :=
    hw.unasking.outcome_exact trivial
  rw [hsame, ← hraised, w.direct_eq]
  rfl

theorem shown_of_pending {deeper : Option Renderer} {p : PendingBody} (hp : st.pending = some p)
    (fallback : Render String) :
    shown deeper s fallback st = renderPending deeper s p { st with pending := none } := by
  simp only [shown, Render.takePending_bind, hp]

/-- A tag that asks for the pending body shows what it comes to where it was written. -/
theorem like_written (hw : w.Exchangeable body out) {left : Nat} (hl : left ≤ w.levels)
    (hs : s.Of w.setting.engine w.setting.extra) (fallback : Render String) :
    Like (.showing (w.directly body)) (w.Exchanges body out)
      (shown (levelsBelow left) s fallback) (pure out) := by
  rintro st st' ⟨hp, hp'⟩
  rw [shown_of_pending hp]
  cases left with
  | zero => exact .excused (.inl ⟨_, _, rfl⟩)
  | succ left =>
    have hthere :
        { s with scope := w.setting.scope, defined := w.setting.defined } = w.setting := by
      obtain ⟨h₁, h₂⟩ := hs
      rw [h₁, h₂]
    have hle : left ≤ w.levels := by omega
    have hout := written_outcome hw hle st.log rfl
    simp only [renderPending, levelsBelow, Setting.descend, pure_bind, Render.leaving,
      Walker.written, hthere]
    simp only [Render.outcome] at hout
    generalize renderer left w.setting body ⟨none, st.log⟩ = r at hout ⊢
    cases r with
    | ok a st₁ =>
      have ha : a = out := by
        apply hw.eq_out a
        apply hout
        rintro _ _ ⟨⟩
      rw [ha]
      exact .ok ⟨rfl, hp'⟩
    | error err st₁ =>
      -- Either it runs out of levels, which are fewer here, or it fails where it was written too.
      by_cases hlim : Tolerance.limited.excused err
      · exact .excused (.inl hlim)
      · refine .excused (.inr (hout ?_))
        rintro name limit ⟨⟩
        exact hlim ⟨name, limit, rfl⟩

/-- The text in its place shows itself. -/
theorem shown_text (h : s.engine.options.renderHook = none) (left : Nat) (fallback : Render String)
    (hp : st.pending = some (w.written [.text out])) :
    shown (levelsBelow (left + 1)) s fallback st = .ok out st := by
  obtain ⟨pending, log⟩ := st
  cases hp
  let there : Setting := { s with scope := w.setting.scope, defined := w.setting.defined }
  have hhook : there.hooked (.text out) out = out := Setting.hooked_of_none (s := there) h _ _
  have hout : renderer left there [.text out] ⟨none, log⟩ = .ok out ⟨none, log⟩ := by
    rw [renderer_eq, renderNodes, renderNodes, renderNode, pure_bind, pure_bind, hhook]
    exact congrArg (EStateM.Result.ok · _) String.append_empty
  rw [shown_of_pending rfl, renderPending, levelsBelow, Setting.descend, pure_bind, Render.leaving]
  simp only [Walker.written]
  rw [hout]

theorem like_shown_written (hw : w.Exchangeable body out) {left left' : Nat} (hl : left ≤ w.levels)
    (hle : left ≤ left') (hs : s.Of w.setting.engine w.setting.extra)
    (fallback fallback' : Render String) :
    Like (.showing (w.directly body)) (w.Exchanges body out)
      (shown (levelsBelow left) s fallback) (shown (levelsBelow left') s fallback') := by
  intro st st' hp
  cases left with
  | zero =>
    rw [shown_of_pending hp.1]
    exact .excused (.inl ⟨_, _, rfl⟩)
  | succ left =>
    obtain ⟨left', rfl⟩ : ∃ k, left' = k + 1 := Nat.exists_eq_add_one_of_ne_zero (by omega)
    have hhook : s.engine.options.renderHook = none := by
      rw [hs.1]
      exact hw.unhooked
    rw [shown_text hhook left' fallback' hp.2]
    exact like_written hw hl hs fallback st st' hp

variable {t : Tolerance} {R : Pendings} {e : Engine} {extra : Option Value}
variable {deeper : Option Renderer}

/-- How nodes are rendered and what they are filled with: where a tag asks for the pending body, that
comes to the text. -/
structure LikeFilled (t : Tolerance) (R : Pendings) (e : Engine) (extra : Option Value)
    (out : String) (deeper : Option Renderer) : Prop where
  below : LikeBelow t R e e extra True deeper deeper
  filled : LikeLevels t R e e extra (fun ns ns' => ns' = fillNodes out ns) deeper deeper
  unhooked : e.options.renderHook = none
  shows : ∀ s, s.Of e extra → ∀ fallback, Like t R (shown deeper s fallback) (pure out)

theorem like_fillAlternates {go go' : Renderer}
    (h : ∀ ns ns', ns' = fillNodes out ns → LikeIn t R e e extra (go · ns) (go' · ns')) :
    ∀ alternates, List.Forall₂ (LikeBranch t R e e extra go go') alternates
      (fillAlternates out alternates)
  | [] => .nil
  | ⟨_, _⟩ :: rest => .cons ⟨rfl, h _ _ rfl⟩ (like_fillAlternates h rest)

/-- Blocks go a level deeper and the bodies of partial tags are not filled, so that the levels below
are all that a node relies on. -/
theorem like_fill (hf : LikeFilled t R e extra out deeper) (hs : s.Of e extra) (n : Node) :
    Like t R (renderNode deeper s n) (renderNode deeper s (n.fill out)) := by
  have same : ∀ n, Like t R (renderNode deeper s n) (renderNode deeper s n) := by
    intro n
    have h := like_node hf.below hs n (.inl trivial)
    rwa [under_self hs] at h
  cases n with
  | text text => exact same _
  | value i escaped => exact same _
  | block b =>
    obtain ⟨name, i, negated, body, alternates⟩ := b
    let filled : Block := ⟨name, i, negated, fillNodes out body, fillAlternates out alternates⟩
    have h : Like t R
        (do let go ← s.descend deeper name; renderBlock go s ⟨name, i, negated, body, alternates⟩)
        (do let go ← (s.under e).descend deeper name; renderBlock go (s.under e) filled) := by
      refine like_descend hf.filled hs name fun go go' hgo => ?_
      have halts := like_fillAlternates hgo alternates
      exact like_block (kin_refl e) hf.below.propagates rfl rfl (hgo _ _ rfl) halts hs
    rw [under_self hs] at h
    rw [Node.fill, renderNode, renderNode]
    exact h
  | partialTag tag =>
    obtain ⟨name, i, body⟩ := tag
    cases name with
    | computed call => exact same _
    | fixed name =>
      by_cases hn : name = partialBlockName
      · subst hn
        rw [Node.fill, if_pos rfl, renderNode_partialTag, renderNode]
        exact hf.shows s hs _
      · rw [Node.fill, if_neg hn]
        exact same _

theorem like_fillNodes (hf : LikeFilled t R e extra out deeper) (hs : s.Of e extra)
    (ns : List Node) :
    Like t R (renderNodes deeper s ns) (renderNodes deeper s (fillNodes out ns)) := by
  have hhook : ∀ n output, s.hooked n output = output :=
    Setting.hooked_of_none (by rw [hs.1, hf.unhooked])
  induction ns with
  | nil => exact like_pure ""
  | cons n ns ih =>
    rw [fillNodes, renderNodes, renderNodes]
    simp only [hhook]
    refine like_bind (like_fill hf hs n) fun text => ?_
    exact like_bind ih fun texts => like_pure _

theorem likeBelow_written (hw : w.Exchangeable body out) {left : Nat} (hl : left ≤ w.levels) :
    LikeBelow (.showing (w.directly body)) (w.Exchanges body out) w.setting.engine
      w.setting.engine w.setting.extra True (levelsBelow left) (levelsBelow left) := by
  refine likeBelow_levels (kin_refl _) hw.propagates (.inl ⟨rfl, fun _ => rfl⟩) ?_
  intro _ k k' hk hkk s hs fallback fallback' _
  have hkl : k ≤ w.levels := Nat.le_trans hk hl
  have hle : k ≤ k' := by
    rcases hkk with ⟨h, -⟩ | ⟨h, -⟩
    · exact Nat.le_of_eq h
    · exact h
  rw [under_self hs]
  exact like_shown_written hw hkl hle hs fallback fallback'

/-- On every level of a partial, the nodes come to the same as what they are filled with. -/
theorem likeFilled_levels (hw : w.Exchangeable body out) {left : Nat} (hl : left ≤ w.levels) :
    LikeFilled (.showing (w.directly body)) (w.Exchanges body out) w.setting.engine
      w.setting.extra out (levelsBelow left) := by
  refine ⟨likeBelow_written hw hl, ?_, hw.unhooked,
    fun s hs fallback => like_written hw hl hs fallback⟩
  induction left with
  | zero => exact likeLevels (.inl ⟨rfl, fun _ => rfl⟩) nofun
  | succ left ih =>
    refine likeLevels (.inl ⟨rfl, fun _ => rfl⟩) ?_
    rintro _ _ ⟨⟩ ⟨⟩ - ns _ rfl s hs
    have hle : left ≤ w.levels := by omega
    rw [under_self hs, renderer_eq]
    refine like_fillNodes ⟨likeBelow_written hw hle, ih hle, hw.unhooked, ?_⟩ hs ns
    exact fun s hs fallback => like_written hw hle hs fallback

/-- The partial comes to the same with the text in place of the body. -/
theorem like_including (hw : w.Exchangeable body out) (name : String) (i : Invocation) (t : Template) :
    Like (.showing (w.directly body)) Eq
      (renderPartial (deeperAt w.setting.engine w.depth) w.setting name i (some body) (.template t))
      (renderPartial (deeperAt w.setting.engine w.depth) w.setting name i (some [.text out])
        (.template (t.fill out))) := by
  have hf := likeFilled_levels hw (Nat.le_refl _)
  rw [w.deeperAt_eq, renderPartial_eq, renderPartial_eq]
  refine like_eval ((Eval.appends _).contextFor i) fun context _ => ?_
  refine like_eval ((Eval.appends _).evalHash i.hash []) fun hash _ => ?_
  refine like_withPending (Q := w.Exchanges body out) ⟨rfl, rfl⟩ ?_
  refine like_descend hf.filled ⟨rfl, rfl⟩ name fun go go' hgo => ?_
  exact hgo _ _ rfl (w.setting.enter ⟨context, hash, none⟩ t) ⟨rfl, rfl⟩

/-- What the filled template comes to does not depend on the body of the tag when none of its tags
asks for it any more. -/
theorem including_of_silent (he : w.setting.engine.Propagates) {t : Template}
    (h : Silent w.setting.engine w.setting.extra t.nodes) (name : String) (i : Invocation)
    (body body' : Option (List Node)) :
    w.including name i body t = w.including name i body' t := by
  have hb : LikeBelow .exact (fun _ _ => True) w.setting.engine w.setting.engine w.setting.extra
      False (deeperAt w.setting.engine w.depth) (deeperAt w.setting.engine w.depth) := by
    rw [w.deeperAt_eq]
    exact likeBelow_levels (kin_refl _) he (.inl ⟨rfl, fun _ => rfl⟩) False.elim
  have hlike : Like .exact Eq
      (renderPartial (deeperAt w.setting.engine w.depth) w.setting name i body' (.template t))
      (renderPartial (deeperAt w.setting.engine w.depth) w.setting name i body (.template t)) := by
    rw [renderPartial_eq, renderPartial_eq]
    refine like_eval ((Eval.appends _).contextFor i) fun context _ => ?_
    refine like_eval ((Eval.appends _).evalHash i.hash []) fun hash _ => ?_
    refine like_withPending (Q := fun _ _ => True) trivial ?_
    refine like_descend hb.same ⟨rfl, rfl⟩ name fun go go' hgo => ?_
    exact hgo _ _ ⟨rfl, .inr h⟩ (w.setting.enter ⟨context, hash, none⟩ t) ⟨rfl, rfl⟩
  exact hlike.outcome_exact rfl

end

namespace Walker
variable {w : Walker} {name : String} {i : Invocation} {body : List Node} {t : Template}

/-- The tag of a partial with a body. -/
def bodyTag (name : String) (i : Invocation) (body : List Node) : Node :=
  .partialTag ⟨.fixed name, i, some body⟩

/-- A tag with a body comes to the same as its partial with a text in place of the tags that show
the body. If all of them are gone, it does not matter which body the tag has. -/
structure ShowsText (w : Walker) (name : String) (i : Invocation) (body : List Node) (t : Template)
    (out : String) : Prop where
  outcome_eq : w.outcome (bodyTag name i body) = w.including name i (some [.text out]) (t.fill out)
  outcome_eq_of_silent : Silent w.setting.engine w.setting.extra (t.fill out).nodes → ∀ body',
    w.outcome (bodyTag name i body) = w.including name i body' (t.fill out)

/-- The body of a tag is rendered where it was written. -/
theorem body_renders_where_written (he : w.setting.engine.Propagates)
    (hhook : w.setting.engine.options.renderHook = none) (hn : name ≠ partialBlockName)
    (hp : w.setting.partial? name = some (.template t)) (hb : Unasking (w.direct body))
    (hlim : ∀ called n, w.outcome (bodyTag name i body) ≠ .error (.nestingLimit called n)) :
    (∀ out, w.directly body = .ok out → w.ShowsText name i body t out) ∧
    ∀ err, w.directly body = .error err →
      w.outcome (bodyTag name i body) = .error err ∨ ∀ out, w.ShowsText name i body t out := by
  have htag : w.outcome (bodyTag name i body) = w.including name i (some body) t :=
    outcome_partialTag hn hp
  -- A body that fails may still never be shown, and then any text does.
  have shows : ∀ out, (∀ a, w.directly body = .ok a → a = out) →
      (∀ err, w.outcome (bodyTag name i body) = .error err → w.directly body ≠ .error err) →
      w.ShowsText name i body t out := by
    intro out hout hfail
    rw [htag] at hlim hfail
    have hlike := like_including ⟨he, hhook, hb, hout⟩ name i t
    have heq : w.including name i (some [.text out]) (t.fill out) =
        w.including name i (some body) t := by
      refine hlike.outcome_eq (fun _ _ => id) rfl fun err herr => ?_
      rintro (⟨called, n, rfl⟩ | h)
      · exact hlim called n herr
      · exact hfail err herr h
    refine ⟨htag.trans heq.symm, fun hsilent body' => ?_⟩
    rw [htag, ← heq]
    exact including_of_silent he hsilent name i _ body'
  constructor
  · intro out hout
    refine shows out ?_ ?_
    · intro a ha
      rw [hout] at ha
      exact (Except.ok.inj ha).symm
    · rw [hout]
      nofun
  · intro err herr
    by_cases h : w.outcome (bodyTag name i body) = .error err
    · exact .inl h
    · refine .inr fun out => shows out ?_ ?_
      · rw [herr]
        nofun
      · intro err' h' he'
        rw [herr] at he'
        cases he'
        exact h h'

/-- Shows its body in parentheses once for each item of its context. -/
def listing : Template := ⟨[
  .block ⟨"each", ⟨some "each", [.path ⟨[], 0, false⟩], [], []⟩, false, [
    .text "(", .partialTag ⟨.fixed partialBlockName, .empty, none⟩, .text ")"], []⟩], []⟩

/-- A body that shows `x`. -/
def showingX : List Node := [.value ⟨none, [.path ⟨["x"], 0, false⟩], [], []⟩ true]

/-- A caller with `x` and a list in its data, where the partial is also registered under the name
that stands for a pending body. -/
def listingCaller : Walker where
  setting :=
    { engine :=
        { Engine.create { limitPartialScope := false } with
          partials := [("list", .template listing), (partialBlockName, .template listing)] }
      extra := none
      scope := .ofContext (.object [("x", .string "<"), ("list", .array [.null, .bool true])])
      defined := [] }
  pending := none
  depth := 3
  log := []
  events := []

/-- The arguments of its tags: the list is the context, and another `x` is in the hash. -/
def listingArguments : Invocation :=
  ⟨none, [.path ⟨["list"], 0, false⟩], [("x", .literal (.string "own"))], []⟩

theorem body_renders_where_written_in_loop :
    listingCaller.directly showingX = .ok "&lt;" ∧
    listingCaller.outcome (bodyTag "list" listingArguments showingX) = .ok "(&lt;)(&lt;)" ∧
    listingCaller.ShowsText "list" listingArguments showingX listing "&lt;" := by
  have hout : listingCaller.directly showingX = .ok "&lt;" := by rfl
  have hshown : listingCaller.outcome (bodyTag "list" listingArguments showingX) =
      .ok "(&lt;)(&lt;)" := by rfl
  have he : listingCaller.setting.engine.Propagates := fun _ _ => builtin_propagates
  have hsilent : Silent listingCaller.setting.engine listingCaller.setting.extra showingX := by
    intro name i body hw
    simp [showingX, Node.within_cons, Node.Inside] at hw
  have hb : Unasking (listingCaller.direct showingX) := unasking_direct he hsilent
  refine ⟨hout, hshown, (body_renders_where_written he rfl (by decide) rfl hb ?_).1 _ hout⟩
  intro called n
  rw [hshown]
  nofun

/-- A tag of the reserved name never asks for a partial, even where one is registered under it. -/
theorem reserved_tag_shows_no_partial :
    listingCaller.setting.partial? partialBlockName = some (.template listing) ∧
    listingCaller.directly showingX = .ok "&lt;" ∧
    listingCaller.outcome (bodyTag partialBlockName listingArguments showingX) = .ok "&lt;" ∧
    listingCaller.including partialBlockName listingArguments (some [.text "&lt;"])
      (listing.fill "&lt;") = .ok "(&lt;)(&lt;)" := by
  refine ⟨rfl, rfl, rfl, rfl⟩

end Walker
end TextTemplate
