import Mathlib.Data.List.Forall2
import TextTemplate.Proofs.Likeness.Basic
import TextTemplate.Proofs.Walk.Levels

/-! Blocks that are rendered in the same setting of two engines, and whose bodies come to the same
end there. -/

namespace TextTemplate

/-- The same setting in another engine. -/
def Setting.under (s : Setting) (e : Engine) : Setting := { s with engine := e }

/-- Engines that show the same things. Their nesting limits may differ, and so may hooks that come
to the same and the order in which helpers and partials were registered. -/
structure Kin (e e' : Engine) : Prop where
  helpers : ∀ name, e'.helpers.get? name = e.helpers.get? name
  partials : ∀ name, e'.partials.get? name = e.partials.get? name
  escapeHtml : e'.options.escapeHtml = e.options.escapeHtml
  entities : e'.options.entities = e.options.entities
  limitPartialScope : e'.options.limitPartialScope = e.options.limitPartialScope
  stepped : ∀ s : Setting, s.engine = e → (s.under e').stepped = s.stepped
  hooked : ∀ s : Setting, s.engine = e → (s.under e').hooked = s.hooked

theorem kin_refl (e : Engine) : Kin e e := by
  constructor <;> try first | rfl | exact fun _ => rfl
  · rintro s rfl
    rfl
  · rintro s rfl
    rfl

namespace Kin
variable {s : Setting} {e' : Engine}

theorem escape (hk : Kin s.engine e') : (s.under e').escape = s.escape := by
  funext text
  simp only [Setting.escape, Setting.under, hk.escapeHtml, hk.entities]

theorem emit (hk : Kin s.engine e') : (s.under e').emit = s.emit := by
  funext escaped out
  simp only [Setting.emit, hk.escape]

theorem call (hk : Kin s.engine e') : (s.under e').call = s.call := by
  funext name args hash isBlock
  simp only [Setting.call, hk.escape]
  rfl

theorem helper? (hk : Kin s.engine e') (name : String) :
    (s.under e').engine.helpers.get? name = s.engine.helpers.get? name :=
  hk.helpers name

theorem bareHelper? (hk : Kin s.engine e') (i : Invocation) :
    (s.under e').bareHelper? i = s.bareHelper? i := by
  have h : (s.under e').engine.hasHelper = s.engine.hasHelper := by
    funext name
    exact congrArg Option.isSome (hk.helpers name)
  simp only [Setting.bareHelper?, h]

theorem partial? (hk : Kin s.engine e') (name : String) :
    (s.under e').partial? name = s.partial? name := by
  simp only [Setting.partial?, Setting.under, hk.partials]

theorem enter (hk : Kin s.engine e') (f : Frame) (t : Template) :
    (s.under e').enter f t = (s.enter f t).under e' := by
  simp only [Setting.enter, Setting.under, hk.limitPartialScope]

mutual

theorem reference (hk : Kin s.engine e') : ∀ r : Reference, r.eval (s.under e') = r.eval s
  | .literal _ => rfl
  | .path _ => rfl
  | .call i => by rw [Reference.eval, Reference.eval, invocation hk i]

theorem invocation (hk : Kin s.engine e') : ∀ i : Invocation, i.eval (s.under e') = i.eval s
  | ⟨some name, params, hash, _⟩ => by
    rw [Invocation.eval, Invocation.eval, hk.helper?, evalParams hk params, hk.call]
    simp only [evalHash hk hash []]
  | ⟨none, [], _, _⟩ => by rw [Invocation.eval, Invocation.eval]
  | ⟨none, p :: ps, hash, aliases⟩ => by
    rw [Invocation.eval, Invocation.eval, hk.bareHelper?, reference hk p, hk.call]
    simp only [hk.helper?]

theorem evalParams (hk : Kin s.engine e') :
    ∀ ps : List Reference, TextTemplate.evalParams (s.under e') ps = TextTemplate.evalParams s ps
  | [] => by rw [TextTemplate.evalParams, TextTemplate.evalParams]
  | p :: ps => by
    rw [TextTemplate.evalParams, TextTemplate.evalParams, reference hk p, evalParams hk ps]

theorem evalHash (hk : Kin s.engine e') :
    ∀ (hash : List (String × Reference)) (d : Dict Value),
      TextTemplate.evalHash (s.under e') hash d = TextTemplate.evalHash s hash d
  | [], d => by rw [TextTemplate.evalHash, TextTemplate.evalHash]
  | (key, r) :: rest, d => by
    rw [TextTemplate.evalHash, TextTemplate.evalHash, reference hk r]
    simp only [evalHash hk rest]

end

theorem subject (hk : Kin s.engine e') (i : Invocation) :
    i.subject (s.under e') = i.subject s := by
  simp only [Invocation.subject, hk.reference]

theorem holds (hk : Kin s.engine e') (kind : BlockKind) (i : Invocation)
    (subject : Option Value) : (s.under e').holds kind i subject = s.holds kind i subject := by
  simp only [Setting.holds, Setting.test, hk.reference]

theorem partialName (hk : Kin s.engine e') (n : PartialName) :
    n.eval (s.under e') = n.eval s := by
  cases n with
  | fixed name => rfl
  | computed call => rw [PartialName.eval, PartialName.eval, hk.invocation]

theorem contextFor (hk : Kin s.engine e') (i : Invocation) :
    (s.under e').contextFor i = s.contextFor i := by
  simp only [Setting.contextFor, hk.reference]
  rfl

end Kin

/-- The settings of one render. -/
def Setting.Of (s : Setting) (e : Engine) (extra : Option Value) : Prop :=
  s.engine = e ∧ s.extra = extra

theorem Setting.Of.push {s : Setting} {e : Engine} {extra : Option Value} (h : s.Of e extra)
    (f : Frame) : (s.push f).Of e extra := h

/-- What is rendered comes to the same end in the same setting of both engines. -/
def LikeIn (t : Tolerance) (R : Pendings) (e e' : Engine) (extra : Option Value)
    (body body' : Setting → Render String) : Prop :=
  ∀ s, s.Of e extra → Like t R (body s) (body' (s.under e'))

/-- Two `else` branches with the same condition, and with bodies that come to the same end. -/
structure LikeBranch (t : Tolerance) (R : Pendings) (e e' : Engine) (extra : Option Value)
    (go go' : Renderer) (a a' : Alternate) : Prop where
  condition : a'.condition = a.condition
  body : LikeIn t R e e' extra (go · a.body) (go' · a'.body)

section
variable {t : Tolerance} {R : Pendings} {e e' : Engine} {extra : Option Value} {s : Setting}
variable {body body' inverse inverse' : Setting → Render String}

theorem like_turns (hk : Kin e e') (hb : LikeIn t R e e' extra body body') (hs : s.Of e extra)
    (aliases : List String) (container : Value) (length index : Nat)
    (items : List (Value × Value)) :
    Like t R (renderTurns body s aliases container length index items)
      (renderTurns body' (s.under e') aliases container length index items) := by
  induction items generalizing index with
  | nil => exact like_pure ""
  | cons item items ih =>
    rw [renderTurns, renderTurns, hk.stepped s hs.1]
    refine like_bind (hb _ (hs.push _)) fun out => ?_
    exact like_bind (ih (index + 1)) fun outs => like_pure _

theorem like_chosen (hk : Kin e e') (hb : LikeIn t R e e' extra body body') (hs : s.Of e extra)
    (kind : BlockKind) (aliases : List String) (subject : Option Value) :
    Like t R (renderChosen body s kind aliases subject)
      (renderChosen body' (s.under e') kind aliases subject) := by
  cases subject with
  | none =>
    rw [renderChosen, renderChosen]
    split
    · exact hb s hs
    · exact like_pure ""
  | some v =>
    rw [renderChosen, renderChosen]
    split
    · exact hb s hs
    · split
      · exact like_turns hk hb hs aliases v _ 0 _
      · exact hb _ (hs.push _)

theorem like_ordinary (hk : Kin e e') (hb : LikeIn t R e e' extra body body') (hs : s.Of e extra)
    (i : Invocation) (negated : Bool) (kind : BlockKind) :
    Like t R (renderOrdinary body s i negated kind)
      (renderOrdinary body' (s.under e') i negated kind) := by
  obtain ⟨rfl, rfl⟩ := hs
  rw [renderOrdinary, renderOrdinary, hk.subject]
  refine like_eval ((Eval.appends _).subject i) fun subject _ => ?_
  rw [hk.holds]
  refine like_eval ((Eval.appends _).holds kind i subject) fun holds _ => ?_
  cases negated <;> cases holds <;> simp only [Bool.false_eq_true, if_true, if_false]
  · exact like_pure none
  · exact like_map some (like_chosen hk hb ⟨rfl, rfl⟩ kind i.aliases subject)
  · exact like_map some (hb s ⟨rfl, rfl⟩)
  · exact like_pure none

theorem like_helper (hk : Kin e e') (he : e.Propagates) (hs : s.Of e extra)
    {part part' : Part → Setting → Render String}
    (hp : ∀ p, LikeIn t R e e' extra (part p) (part' p)) (name : String)
    (params : List Reference) (hash : List (String × Reference)) (negated : Bool) :
    Like t R (renderHelper s name params hash negated part)
      (renderHelper (s.under e') name params hash negated part') := by
  obtain ⟨rfl, rfl⟩ := hs
  rw [renderHelper, renderHelper, hk.helper?]
  cases hn : s.engine.helpers.get? name with
  | none => exact like_pure ""
  | some helper =>
    dsimp only
    rw [hk.evalParams, hk.evalHash, hk.call, hk.emit]
    refine like_eval ((Eval.appends _).evalParams params) fun args _ => ?_
    refine like_eval ((Eval.appends _).evalHash hash []) fun hash _ => ?_
    refine like_bind ?_ fun out => like_pure _
    refine like_within (he name helper hn _) fun p context => ?_
    cases context with
    | none => exact hp _ s ⟨rfl, rfl⟩
    | some context => exact hp _ _ ⟨rfl, rfl⟩

theorem like_branch (hk : Kin e e') (he : e.Propagates)
    (hb : LikeIn t R e e' extra body body') (hi : LikeIn t R e e' extra inverse inverse')
    (hs : s.Of e extra) (i : Invocation) (negated : Bool) :
    Like t R (renderBranch s i negated body inverse)
      (renderBranch (s.under e') i negated body' inverse') := by
  have hp : ∀ p, LikeIn t R e e' extra (blockPart body inverse p) (blockPart body' inverse' p) := by
    intro p
    cases p with
    | body => exact hb
    | inverse => exact hi
  have hbare : (s.under e').bareHelper? i = s.bareHelper? i := by
    obtain ⟨rfl, -⟩ := hs
    exact hk.bareHelper? i
  rw [renderBranch_eq, renderBranch_eq, hbare]
  split
  · exact like_map some (like_helper hk he hs hp _ _ _ _)
  · exact like_map some (like_helper hk he hs hp _ _ _ _)
  · exact like_ordinary hk hb hs i negated _

theorem like_alternates (hk : Kin e e') (he : e.Propagates) {go go' : Renderer}
    {alternates alternates' : List Alternate}
    (h : List.Forall₂ (LikeBranch t R e e' extra go go') alternates alternates') :
    LikeIn t R e e' extra (renderAlternates go · alternates)
      (renderAlternates go' · alternates') := by
  induction h with
  | nil => exact fun s _ => like_pure ""
  | @cons a a' rest rest' ha _ ih =>
    obtain ⟨condition, nodes⟩ := a
    obtain ⟨condition', nodes'⟩ := a'
    obtain ⟨hc, hb⟩ := ha
    cases hc
    intro s hs
    cases condition with
    | none => exact hb s hs
    | some condition =>
      dsimp only
      rw [renderAlternates, renderAlternates]
      refine like_bind (like_branch hk he hb ih hs condition false) fun out => ?_
      cases out with
      | none => exact ih s hs
      | some out => exact like_pure out

/-- Blocks that differ in the body and in what follows it. -/
theorem like_block_of_alternates (hk : Kin e e') (he : e.Propagates) {go go' : Renderer}
    {b b' : Block} (hi : b'.invocation = b.invocation) (hn : b'.negated = b.negated)
    (hb : LikeIn t R e e' extra (go · b.body) (go' · b'.body))
    (ha : LikeIn t R e e' extra (renderAlternates go · b.alternates)
      (renderAlternates go' · b'.alternates))
    (hs : s.Of e extra) : Like t R (renderBlock go s b) (renderBlock go' (s.under e') b') := by
  rw [renderBlock, renderBlock, hi, hn]
  refine like_bind (like_branch hk he hb ha hs b.invocation b.negated) fun out => ?_
  cases out with
  | none => exact ha s hs
  | some out => exact like_pure out

/-- Blocks that differ in the bodies of their branches only. -/
theorem like_block (hk : Kin e e') (he : e.Propagates) {go go' : Renderer} {b b' : Block}
    (hi : b'.invocation = b.invocation) (hn : b'.negated = b.negated)
    (hb : LikeIn t R e e' extra (go · b.body) (go' · b'.body))
    (ha : List.Forall₂ (LikeBranch t R e e' extra go go') b.alternates b'.alternates)
    (hs : s.Of e extra) : Like t R (renderBlock go s b) (renderBlock go' (s.under e') b') :=
  like_block_of_alternates hk he hi hn hb (like_alternates hk he ha) hs

end
end TextTemplate
