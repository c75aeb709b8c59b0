import TextTemplate.Proofs.Branching.Basic

/-! A chain of `else` branches is blocks inside one another. -/

namespace TextTemplate

/-- Each branch with a condition as a block of its own, in an `else` of the one before. `label`
names the new blocks. -/
def nestAlternates (label : Invocation → String) : List Alternate → List Alternate
  | [] => []
  | ⟨none, body⟩ :: _ => [⟨none, body⟩]
  | ⟨some c, body⟩ :: rest =>
    [⟨none, [.block ⟨label c, c, false, body, nestAlternates label rest⟩]⟩]

def Block.nested (label : Invocation → String) (b : Block) : Block :=
  { b with alternates := nestAlternates label b.alternates }

/-- A branch with a condition is rendered as the block that it would begin. -/
theorem renderAlternates_cons (go : Renderer) (s : Setting) (name : String) (c : Invocation)
    (body : List Node) (rest : List Alternate) :
    renderAlternates go s (⟨some c, body⟩ :: rest) =
      renderBlock go s ⟨name, c, false, body, rest⟩ := rfl

section
variable {t : Tolerance} {e : Engine} {extra : Option Value} {left left' : Nat}

/-- The levels may run out sooner where the branches are blocks inside one another. -/
theorem like_nestAlternates (he : e.Propagates) (hhook : e.options.renderHook = none)
    (ht : ∀ name, t.excused (.nestingLimit name e.options.maxDepth)) (label : Invocation → String)
    (as : List Alternate) (h : left ≤ left') :
    LikeIn t Eq e e extra (renderAlternates (renderer left) · (nestAlternates label as))
      (renderAlternates (renderer left') · as) := by
  induction as generalizing left with
  | nil => exact fun s _ => like_pure ""
  | cons a rest ih =>
    obtain ⟨condition, body⟩ := a
    intro s hs
    cases condition with
    | none => exact like_renderer (kin_refl e) he (.inr ⟨h, ht⟩) body s hs
    | some c =>
      have hself := hs.1
      subst hself
      dsimp only
      rw [nestAlternates, renderAlternates, renderer_singleton hhook, renderNode,
        renderAlternates_cons _ _ (label c)]
      -- The block of this branch is one level deeper than the branch.
      cases left with
      | zero => exact fun _ _ _ => .excused (ht _)
      | succ left =>
        have hle : left ≤ left' := by omega
        have hbody : LikeIn t Eq _ _ extra (renderer left · body) (renderer left' · body) :=
          like_renderer (kin_refl _) he (.inr ⟨hle, ht⟩) body
        exact like_block_of_alternates (kin_refl _) he rfl rfl hbody (ih hle) hs

end

namespace Walker
variable {w : Walker}

theorem outcome_nested (he : w.setting.engine.Propagates)
    (hhook : w.setting.engine.options.renderHook = none) (label : Invocation → String) (b : Block)
    (hlimit : ∀ name n, w.outcome (.block (b.nested label)) ≠ .error (.nestingLimit name n)) :
    w.outcome (.block b) = w.outcome (.block (b.nested label)) := by
  have hs : w.setting.Of w.setting.engine w.setting.extra := ⟨rfl, rfl⟩
  cases hl : w.levels with
  | zero => rw [outcome_block_of_zero hl, outcome_block_of_zero hl, Block.nested]
  | succ left =>
    have ht : ∀ name, Tolerance.limited.excused
        (.nestingLimit name w.setting.engine.options.maxDepth) := fun name => ⟨name, _, rfl⟩
    have hbody : LikeIn .limited Eq _ _ w.setting.extra (renderer left · b.body)
        (renderer left · b.body) :=
      like_renderer (kin_refl _) he (.inr ⟨Nat.le_refl left, ht⟩) b.body
    have hlike : Like .limited Eq (renderBlock (renderer left) w.setting (b.nested label))
        (renderBlock (renderer left) w.setting b) :=
      like_block_of_alternates (kin_refl _) he rfl rfl hbody
        (like_nestAlternates he hhook ht label b.alternates (Nat.le_refl left)) hs
    rw [outcome_block_of_succ hl] at hlimit ⊢
    rw [outcome_block_of_succ hl]
    exact hlike.outcome_limited rfl hlimit

/-- Where helpers return the failures of their blocks and no hook sees the nodes, a block renders
the same with the branches of its chain nested, unless this takes more levels than there are. A
block or a branch that is left to a helper gives it the whole chain behind its body as the other
part. -/
theorem else_chain_nests (he : w.setting.engine.Propagates)
    (hhook : w.setting.engine.options.renderHook = none) (label : Invocation → String) (b : Block) :
    ((∀ name n, w.outcome (.block (b.nested label)) ≠ .error (.nestingLimit name n)) →
      w.outcome (.block b) = w.outcome (.block (b.nested label))) ∧
    (∀ go s c, s.blockCall? b.invocation = some c →
      renderBlock go s b = renderHelper s c.name c.params c.hash b.negated
        (blockPart (go · b.body) (renderAlternates go · b.alternates))) ∧
    ∀ go s condition c body rest, s.blockCall? condition = some c →
      renderAlternates go s (⟨some condition, body⟩ :: rest) =
        renderHelper s c.name c.params c.hash false
          (blockPart (go · body) (renderAlternates go · rest)) := by
  refine ⟨outcome_nested he hhook label b, fun go s c hc => renderBlock_of_call hc, ?_⟩
  intro go s condition c body rest hc
  rw [renderAlternates_cons go s (label condition)]
  exact renderBlock_of_call hc

/-- A helper that shows what follows its body. -/
def skipping : Engine := { Engine.create {} with helpers := [("skip", fun _ => do
  let out ← Run.inverse none
  pure (.safe out))] }

/-- A condition that fails, a helper, a loop and a last branch. -/
def skippingChain : Block where
  name := "if"
  invocation := ⟨some "if", [.literal (.bool false)], [], []⟩
  negated := false
  body := [.text "a"]
  alternates := [
    ⟨some ⟨some "skip", [.literal .null], [], []⟩, [.text "b"]⟩,
    ⟨some ⟨some "each", [.path ⟨["xs"], 0, false⟩], [], []⟩,
      [.value ⟨none, [.path ⟨[], 0, false⟩], [], []⟩ true]⟩,
    ⟨none, [.text "d"]⟩]

def skippingStart : Walker :=
  .start skipping ⟨[.block skippingChain], []⟩
    (.object [("xs", .array [.string "1", .string "2"])]) none

theorem else_chain_nests_skipping :
    skipping.Propagates ∧ skipping.options.renderHook = none ∧
      skippingStart.outcome (.block (skippingChain.nested fun _ => "else")) = .ok "12" ∧
      skippingStart.outcome (.block skippingChain) = .ok "12" := by
  have he : skipping.Propagates := by
    intro name helper hn c
    simp only [skipping, Dict.get?_cons, Dict.get?_nil] at hn
    split at hn
    · cases hn
      exact ⟨fun out => trivial, fun err => rfl⟩
    · cases hn
  have hhook : skipping.options.renderHook = none := rfl
  have hnested : skippingStart.outcome (.block (skippingChain.nested fun _ => "else")) =
      .ok "12" := by rfl
  refine ⟨he, hhook, hnested, ?_⟩
  have main := (else_chain_nests (w := skippingStart) he hhook (fun _ => "else") skippingChain).1
  rw [main]
  · exact hnested
  · intro name n
    rw [hnested]
    nofun

end Walker
end TextTemplate
