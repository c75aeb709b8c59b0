import TextTemplate.Proofs.PartialScope

/-! Which blocks are left to a helper, and what a block comes to where a walker stands. -/

namespace TextTemplate

/-- A helper that is called for a block, with its arguments. -/
structure BlockCall where
  name : String
  params : List Reference
  hash : List (String × Reference)

/-- The helper that a block is left to, if it is: one that is called by name, or one that the
subject of a section names. -/
def Setting.blockCall? (s : Setting) (i : Invocation) : Option BlockCall :=
  match i.helper, BlockKind.of i, s.bareHelper? i with
  | some name, .helper, _ => some ⟨name, i.params, i.hash⟩
  | _, .plain, some name => some ⟨name, [], []⟩
  | _, _, _ => none

/-- The block judges a condition itself: it is one of the four kinds with a name, or a section whose
subject names no helper. -/
def Setting.Judges (s : Setting) (i : Invocation) : Prop :=
  (∃ name ∈ ["if", "unless", "each", "with"], i.helper = some name) ∨
    i.helper = none ∧ s.bareHelper? i = none

theorem Render.eval_bind {α β : Type} (x : Eval α) (f : α → Eval β) :
    Render.eval (x >>= f) = Render.eval x >>= fun a => Render.eval (f a) := by
  funext st
  simp only [Render.eval, bind, EStateM.bind]
  cases x st.log <;> rfl

theorem Render.eval_pure {α : Type} (a : α) : Render.eval (pure a) = pure a := rfl

section
variable {s : Setting} {i : Invocation} {c : BlockCall} {b : Block} {go : Renderer} {negated : Bool}
variable {body inverse : Setting → Render String}

theorem Setting.blockCall?_eq_none_iff : s.blockCall? i = none ↔ s.Judges i := by
  obtain ⟨helper, params, hash, aliases⟩ := i
  cases helper with
  | none =>
    rw [blockCall?]
    cases hb : s.bareHelper? ⟨none, params, hash, aliases⟩ <;> simp [BlockKind.of, Judges, hb]
  | some name =>
    simp only [blockCall?, BlockKind.of, Judges]
    split_ifs <;> simp_all

theorem renderBranch_of_call (h : s.blockCall? i = some c) :
    renderBranch s i negated body inverse =
      some <$> renderHelper s c.name c.params c.hash negated (blockPart body inverse) := by
  rw [Setting.blockCall?] at h
  rw [renderBranch_eq]
  generalize i.helper = helper, BlockKind.of i = kind, s.bareHelper? i = bare at h
  cases helper <;> cases kind <;> cases bare <;> cases h <;> rfl

theorem renderBranch_of_no_call (h : s.blockCall? i = none) :
    renderBranch s i negated body inverse = renderOrdinary body s i negated (BlockKind.of i) := by
  rw [Setting.blockCall?] at h
  rw [renderBranch_eq]
  generalize i.helper = helper, BlockKind.of i = kind, s.bareHelper? i = bare at h
  cases helper <;> cases kind <;> cases bare <;> first | rfl | cases h

/-- A helper gets all that follows the body of its block as the other part. -/
theorem renderBlock_of_call (h : s.blockCall? b.invocation = some c) :
    renderBlock go s b = renderHelper s c.name c.params c.hash b.negated
      (blockPart (go · b.body) (renderAlternates go · b.alternates)) := by
  rw [renderBlock, renderBranch_of_call h]
  simp only [map_eq_pure_bind, bind_assoc, pure_bind, bind_pure]

end

/-- A node alone, where no hook sees it. -/
theorem renderer_singleton {s : Setting} (h : s.engine.options.renderHook = none) (left : Nat)
    (n : Node) : renderer left s [n] = renderNode (levelsBelow left) s n := by
  rw [renderer_eq, renderNodes, renderNodes]
  simp only [Setting.hooked_of_none h, pure_bind, String.append_empty, bind_pure]

theorem renderNode_block_succ (left : Nat) (s : Setting) (b : Block) :
    renderNode (levelsBelow (left + 1)) s (.block b) = renderBlock (renderer left) s b := by
  rw [renderNode]
  rfl

namespace Walker
variable {w : Walker} {b : Block}

theorem outcome_eq (w : Walker) (n : Node) :
    w.outcome n = (renderNode (levelsBelow w.levels) w.setting n).outcome ⟨w.pending, w.log⟩ := by
  rw [outcome, deeperAt_eq]

theorem exists_levels (h : w.depth < w.setting.engine.options.maxDepth) :
    ∃ left, w.levels = left + 1 := by
  have hlevels : w.levels ≠ 0 := Nat.sub_ne_zero_of_lt h
  exact Nat.exists_eq_add_one_of_ne_zero hlevels

/-- Where no level is left, a block fails by its name. -/
theorem outcome_block_of_zero (h : w.levels = 0) (b : Block) :
    w.outcome (.block b) = .error (.nestingLimit b.name w.setting.engine.options.maxDepth) := by
  rw [outcome_eq, h, renderNode]
  rfl

theorem outcome_block_of_succ {left : Nat} (h : w.levels = left + 1) (b : Block) :
    w.outcome (.block b) =
      (renderBlock (renderer left) w.setting b).outcome ⟨w.pending, w.log⟩ := by
  rw [outcome_eq, h, renderNode_block_succ]

end Walker
end TextTemplate
