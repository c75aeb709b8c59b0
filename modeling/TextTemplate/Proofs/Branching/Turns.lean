import TextTemplate.Proofs.Branching.Negation
import TextTemplate.Proofs.Likeness.Steady

/-! The turns of a loop: each is rendered as if it were the only one, in a scope of its own. -/

namespace TextTemplate

/-- The scope of a turn: the item, the names for it and for its key, and where the loop stands. -/
def Frame.turn (aliases : List String) (container : Value) (index : Nat) (item : Value × Value) :
    Frame :=
  { Frame.binding item.2 aliases [item.2, item.1] with
    iteration := some ⟨index, item.1, container.items.length, container⟩ }

/-- What nodes see of the turn that they are rendered in. -/
structure Scope.Labelled (s : Scope) (aliases : List String) (container : Value) (i : Nat)
    (item : Value × Value) : Prop where
  context : s.context = item.2
  bindings : ∀ name, s.current.bindings.get? name =
    if aliases[1]? = some name then some item.1
    else if aliases[0]? = some name then some item.2 else none
  index : s.special? 0 "index" = some (.number (.int i))
  key : s.special? 0 "key" = some item.1
  length : s.special? 0 "length" = some (.number (.int container.items.length))
  first : s.special? 0 "first" = some (.bool (i = 0))
  last : s.special? 0 "last" = some (.bool (i + 1 = container.items.length))
  parent : s.special? 0 "parent" = some container

section
variable {s : Setting} {st : RenderState} {go : Setting → Render String} {aliases : List String}
variable {container : Value} {index : Nat} {item : Value × Value}

theorem Scope.labelled_push (s : Scope) (aliases : List String) (container : Value) (index : Nat)
    (item : Value × Value) :
    (s.push (.turn aliases container index item)).Labelled aliases container index item where
  context := rfl
  bindings name := by
    rw [push, Frame.turn, Frame.binding, Dict.get?_insertAll]
    match aliases with
    | [] => simp [Dict.under]
    | [a] => by_cases ha : a = name <;> simp [Dict.under, ha]
    | a :: b :: _ => by_cases ha : a = name <;> by_cases hb : b = name <;> simp [Dict.under, ha, hb]
  index := rfl
  key := rfl
  length := rfl
  first := rfl
  last := rfl
  parent := rfl

theorem steady_turns (hgo : ∀ f, Steady (go (s.push f))) (aliases : List String)
    (container : Value) (length index : Nat) (items : List (Value × Value)) :
    Steady (renderTurns go s aliases container length index items) := by
  induction items generalizing index with
  | nil => exact steady_pure ""
  | cons item items ih => exact (hgo _).bind fun out => (ih _).bind fun outs => steady_pure _

/-- Each turn starts from the state that the loop starts from. -/
theorem outcome_turns (hgo : ∀ f, Steady (go (s.push f))) (aliases : List String)
    (container : Value) (index : Nat) (items : List (Value × Value)) (st : RenderState) :
    (renderTurns go s aliases container container.items.length index items).outcome st =
      String.join <$> (items.zipIdx index).mapM fun (item, index) =>
        s.stepped index item.1 item.2 <$>
          (go (s.push (.turn aliases container index item))).outcome st := by
  induction items generalizing index with
  | nil => rfl
  | cons item items ih =>
    obtain ⟨key, value⟩ := item
    have hrest := steady_turns hgo aliases container container.items.length (index + 1) items
    rw [renderTurns, (hgo _).outcome_bind fun out => hrest.bind fun outs => steady_pure _]
    simp only [hrest.outcome_bind fun outs => steady_pure _, ih, List.zipIdx_cons, List.mapM_cons,
      map_eq_pure_bind, bind_assoc, pure_bind, String.join_cons]
    rfl

end

namespace Walker
variable {w : Walker} {b : Block} {v : Value}

/-- The block is a loop over the items of this value, of which there are some: it is an `each`, or a
section about an array. -/
structure Loops (w : Walker) (b : Block) (v : Value) : Prop where
  negated_eq : b.negated = false
  gives : w.Gives (b.invocation.subject ·) (some v)
  items_ne : v.items ≠ []
  kind : b.invocation.helper = some "each" ∨
    b.invocation.helper = none ∧ w.setting.bareHelper? b.invocation = none ∧ v.isArray = true

/-- In a turn of a loop: one level deeper and in a scope of its own, and otherwise as before it. -/
def turn (w : Walker) (aliases : List String) (container : Value) (index : Nat)
    (item : Value × Value) : Walker :=
  { w with
    setting := w.setting.push (.turn aliases container index item)
    depth := w.depth + 1 }

namespace Loops

theorem blockCall?_eq_none (h : w.Loops b v) : w.setting.blockCall? b.invocation = none := by
  rw [Setting.blockCall?_eq_none_iff]
  rcases h.kind with heach | ⟨hnone, hbare, -⟩
  · exact .inl ⟨"each", by decide, heach⟩
  · exact .inr ⟨hnone, hbare⟩

theorem kind_eq (h : w.Loops b v) :
    BlockKind.of b.invocation = .each ∨
      BlockKind.of b.invocation = .plain ∧ v.isArray = true := by
  rw [BlockKind.of]
  rcases h.kind with heach | ⟨hnone, -, harray⟩
  · left
    rw [heach]
    rfl
  · right
    rw [hnone]
    exact ⟨rfl, harray⟩

theorem holds_eq (h : w.Loops b v) :
    w.setting.holds (BlockKind.of b.invocation) b.invocation (some v) = pure true := by
  have hitems := h.items_ne
  rcases h.kind_eq with hkind | ⟨hkind, harray⟩
  · simp only [hkind, Setting.holds, Option.any_some, List.isEmpty_eq_false_iff.2 hitems,
      Bool.not_false]
  · simp only [hkind, Setting.holds, Option.any_some]
    cases v with
    | array items =>
      cases items with
      | nil => exact absurd rfl hitems
      | cons item items => rfl
    | null | bool | number | string | object => cases harray

theorem judge_eq (h : w.Loops b v) :
    ∃ log, w.setting.judge b.invocation w.log = .ok (some v, true) log := by
  obtain ⟨log, hlog⟩ := h.gives
  refine ⟨log, ?_⟩
  simp only [Setting.judge, bind, EStateM.bind, hlog, h.holds_eq]
  rfl

theorem judged_eq (h : w.Loops b v) (go : Renderer) :
    b.judged go w.setting (some v, true) =
      renderTurns (go · b.body) w.setting b.invocation.aliases v v.items.length 0 v.items := by
  have hkind := h.kind_eq
  have hcondition : ¬ (BlockKind.of b.invocation = .ifTrue ∨
      BlockKind.of b.invocation = .ifFalse) := by
    rcases hkind with hkind | ⟨hkind, -⟩ <;> rw [hkind] <;> decide
  simp only [Block.judged, h.negated_eq, Bool.true_eq_false, Bool.false_eq_true, if_false,
    renderChosen, hcondition, hkind, if_true, renderEach]

theorem outcome_block (h : w.Loops b v) {left : Nat} (hl : w.levels = left + 1) :
    ∃ log, w.outcome (.block b) = (renderTurns (renderer left · b.body) w.setting
      b.invocation.aliases v v.items.length 0 v.items).outcome ⟨w.pending, log⟩ := by
  obtain ⟨log, hjudge⟩ := h.judge_eq
  refine ⟨log, ?_⟩
  rw [outcome_block_of_succ hl, renderBlock_of_no_call h.blockCall?_eq_none, outcome_eval hjudge,
    h.judged_eq]

end Loops

theorem directly_turn {left : Nat} (hl : w.levels = left + 1) (aliases : List String)
    (container : Value) (i : Nat) (item : Value × Value) (ns : List Node) :
    (w.turn aliases container i item).directly ns =
      (renderer left (w.setting.push (.turn aliases container i item)) ns).outcome
        ⟨w.pending, w.log⟩ := by
  have hlevels : (w.turn aliases container i item).levels = left := by
    simp only [levels, turn, Setting.push] at hl ⊢
    omega
  rw [directly, direct_eq, hlevels]
  rfl

/-- What stands behind a node is rendered as if the node were not there. -/
theorem directly_cons (he : w.setting.engine.Propagates) (n : Node) (ns : List Node) :
    w.directly (n :: ns) = (do
      let out ← w.outcome n
      let outs ← w.directly ns
      pure (w.setting.hooked n out ++ outs)) := by
  have hnode := steady_node he w.levels n
  have hnodes := steady_renderer he w.levels ns
  rw [directly, directly, direct_eq, direct_eq, outcome_eq, renderer_eq, renderNodes,
    ← renderer_eq, hnode.outcome_bind fun out => hnodes.bind fun outs => steady_pure _]
  simp only [hnodes.outcome_bind fun outs => steady_pure _]
  rfl

/-- After a node that succeeds, everything but the log stands as before. -/
theorem node_leaves (he : w.setting.engine.Propagates) {levels : Nat}
    (hl : w.setting.engine.options.maxDepth ≤ w.depth + levels) (n : Node) :
    ∃ c : Course String, Walk.node (Walk.upTo levels) n w = some (c.outcome, c.walker w) ∧
      c.outcome = w.outcome n ∧ ∀ out, c.outcome = .ok out → c.pending = w.pending := by
  obtain ⟨c, walks, renders, -, -⟩ := follows_node (below_deeperAt w.setting.engine hl) n w
    ⟨rfl, rfl, rfl⟩
  have hrender := renders w.log
  refine ⟨c, walks w.log w.events, ?_, ?_⟩
  · rw [outcome, Render.outcome, hrender, Course.ended]
    cases c.outcome <;> rfl
  · intro out hout
    have hsteady := steady_node he w.levels n w.pending ⟨w.pending, w.log⟩ ⟨w.pending, w.log⟩
      ⟨rfl, rfl⟩
    rw [deeperAt_eq] at hrender
    rw [hrender, Course.ended, hout] at hsteady
    cases hsteady with
    | ok h => exact h.1

/-- Where helpers return the failures of their parts, a loop shows its turns in order, each as if it
were rendered alone where the loop stands, in a scope with the labels of that turn. What stands
behind the loop is rendered as if the loop were not there, and a walker that comes out of it stands
where it stood. -/
theorem turns_independent (he : w.setting.engine.Propagates)
    (hd : w.depth < w.setting.engine.options.maxDepth) (h : w.Loops b v) :
    (w.outcome (.block b) = String.join <$> v.items.zipIdx.mapM fun (item, i) =>
      w.setting.stepped i item.1 item.2 <$>
        (w.turn b.invocation.aliases v i item).directly b.body) ∧
    (∀ i item, (w.turn b.invocation.aliases v i item).setting.scope.Labelled
      b.invocation.aliases v i item) ∧
    (∀ later, w.directly (.block b :: later) = do
      let out ← w.outcome (.block b)
      let outs ← w.directly later
      pure (w.setting.hooked (.block b) out ++ outs)) ∧
    ∀ levels, w.setting.engine.options.maxDepth ≤ w.depth + levels →
      ∃ c : Course String,
        Walk.node (Walk.upTo levels) (.block b) w = some (c.outcome, c.walker w) ∧
        c.outcome = w.outcome (.block b) ∧ ∀ out, c.outcome = .ok out → c.pending = w.pending := by
  refine ⟨?_, fun i item => w.setting.scope.labelled_push b.invocation.aliases v i item,
    directly_cons he (.block b), fun levels hl => node_leaves he hl (.block b)⟩
  obtain ⟨left, hl⟩ := exists_levels hd
  obtain ⟨log, hblock⟩ := h.outcome_block hl
  let body : Setting → Render String := (renderer left · b.body)
  have hgo : ∀ f, Steady (body (w.setting.push f)) := fun f =>
    steady_renderer (s := w.setting.push f) he left b.body
  -- The condition may have noted messages before the first turn.
  have hlog := (steady_turns hgo b.invocation.aliases v v.items.length 0 v.items).outcome_log
    w.pending log w.log
  have hturns := outcome_turns hgo b.invocation.aliases v 0 v.items ⟨w.pending, w.log⟩
  rw [hblock, hlog, hturns]
  simp only [directly_turn hl]
  rfl

/-- Shows the value of a name. -/
def nameTag (name : String) : Node := .value ⟨none, [.path ⟨[name], 0, false⟩], [], []⟩ true

/-- The members of an object, one after the other. -/
def memberLoop : Block :=
  ⟨"each", ⟨some "each", [.path ⟨["o"], 0, false⟩], [], ["x", "k"]⟩, false,
    [nameTag "x", nameTag "k", nameTag "@index", nameTag "@last"], []⟩

def members : Value := .object [("a", .string "A"), ("b", .string "B")]

/-- A caller with a loop helper that ends each turn with a semicolon. -/
def memberCaller : Walker :=
  .start (Engine.create { loopHelper := some fun step => step.output ++ ";" }) ⟨[], []⟩
    (.object [("o", members)]) none

theorem turns_independent_members :
    memberCaller.Loops memberLoop members ∧
      memberCaller.outcome (.block memberLoop) = .ok "Aa0false;Bb1true;" ∧
      memberCaller.directly [.block memberLoop, .text "!"] = .ok "Aa0false;Bb1true;!" := by
  have h : memberCaller.Loops memberLoop members := ⟨rfl, ⟨[], rfl⟩, nofun, .inl rfl⟩
  have main := turns_independent (fun _ _ => builtin_propagates) (by decide) h
  have hout : memberCaller.outcome (.block memberLoop) = .ok "Aa0false;Bb1true;" := by
    rw [main.1]
    rfl
  refine ⟨h, hout, ?_⟩
  rw [main.2.2.1, hout]
  rfl

end Walker
end TextTemplate
