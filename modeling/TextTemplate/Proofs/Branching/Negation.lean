import TextTemplate.Proofs.Branching.Basic

/-! Negated blocks are the complements of the others. -/

namespace TextTemplate

/-- A block with an `else`. -/
def Node.either (name : String) (i : Invocation) (negated : Bool) (a b : List Node) : Node :=
  .block ⟨name, i, negated, a, [⟨none, b⟩]⟩

/-- A block without `else`. -/
def Node.only (name : String) (i : Invocation) (negated : Bool) (a : List Node) : Node :=
  .block ⟨name, i, negated, a, []⟩

/-- The subject of a block and whether its condition holds. -/
def Setting.judge (s : Setting) (i : Invocation) : Eval (Option Value × Bool) := do
  let subject ← i.subject s
  let holds ← s.holds (BlockKind.of i) i subject
  pure (subject, holds)

/-- What a block shows once its condition is judged. -/
def Block.judged (go : Renderer) (s : Setting) (b : Block) (v : Option Value × Bool) :
    Render String :=
  if v.2 = b.negated then renderAlternates go s b.alternates
  else if b.negated then go s b.body
  else renderChosen (go · b.body) s (BlockKind.of b.invocation) b.invocation.aliases v.1

section
variable {s : Setting} {i : Invocation} {b : Block} {go : Renderer}

theorem Setting.appends_judge (s : Setting) (i : Invocation) : (s.judge i).Appends :=
  Eval.appends_bind ((Eval.appends _).subject i) fun subject =>
    Eval.appends_bind ((Eval.appends _).holds _ i subject) fun _ => Eval.appends_pure _

theorem renderBlock_of_no_call (h : s.blockCall? b.invocation = none) :
    renderBlock go s b = .eval (s.judge b.invocation) >>= b.judged go s := by
  rw [renderBlock, renderBranch_of_no_call h]
  simp only [renderOrdinary, Setting.judge, Render.eval_bind, Render.eval_pure, bind_assoc,
    pure_bind]
  refine bind_congr fun subject => bind_congr fun holds => ?_
  rw [Block.judged]
  cases b.negated <;> cases holds <;> simp

variable {notes : List String} {subject : Option Value}

theorem renderBlock_of_judge {r : Except EngineError (Option Value × Bool)}
    (h : s.blockCall? i = none) (hr : ∀ log, s.judge i log = Eval.ended r (log ++ notes))
    (go : Renderer) (b : Block) (hb : b.invocation = i) (st : RenderState) :
    renderBlock go s b st =
      match r with
      | .ok v => b.judged go s v { st with log := st.log ++ notes }
      | .error e => .error e { st with log := st.log ++ notes } := by
  subst hb
  rw [renderBlock_of_no_call h]
  simp only [bind, EStateM.bind, Render.eval, hr]
  cases r <;> rfl

/-- Where the condition holds, nothing comes of an `else` or of the negated block. -/
theorem renderBlock_holds (h : s.blockCall? i = none)
    (hr : ∀ log, s.judge i log = Eval.ended (.ok (subject, true)) (log ++ notes)) (go : Renderer)
    (name : String) (ns ms : List Node) (st : RenderState) :
    renderBlock go s ⟨name, i, false, ns, [⟨none, ms⟩]⟩ st =
        renderBlock go s ⟨name, i, false, ns, []⟩ st ∧
      renderBlock go s ⟨name, i, true, ms, []⟩ st = .ok "" { st with log := st.log ++ notes } := by
  refine ⟨?_, renderBlock_of_judge h hr go _ rfl st⟩
  rw [renderBlock_of_judge h hr go _ rfl, renderBlock_of_judge h hr go _ rfl]
  rfl

/-- Where it fails, the body of the negated block is what the `else` shows. -/
theorem renderBlock_fails (h : s.blockCall? i = none)
    (hr : ∀ log, s.judge i log = Eval.ended (.ok (subject, false)) (log ++ notes)) (go : Renderer)
    (name : String) (ns ms : List Node) (st : RenderState) :
    renderBlock go s ⟨name, i, false, ns, [⟨none, ms⟩]⟩ st =
        go s ms { st with log := st.log ++ notes } ∧
      renderBlock go s ⟨name, i, false, ns, []⟩ st = .ok "" { st with log := st.log ++ notes } ∧
      renderBlock go s ⟨name, i, true, ms, []⟩ st = go s ms { st with log := st.log ++ notes } := by
  refine ⟨?_, ?_, ?_⟩ <;> exact renderBlock_of_judge h hr go _ rfl st

/-! Helpers -/

/-- A helper cannot tell a negated block from one with its parts exchanged. -/
theorem renderBlock_exchanged {c : BlockCall} (h : s.blockCall? i = some c) (name : String)
    (ns ms : List Node) :
    renderBlock go s ⟨name, i, true, ns, [⟨none, ms⟩]⟩ =
      renderBlock go s ⟨name, i, false, ms, [⟨none, ns⟩]⟩ := by
  have hpart : ∀ q : Part, blockPart (go · ns) (renderAlternates go · [⟨none, ms⟩]) q.other =
      blockPart (go · ms) (renderAlternates go · [⟨none, ns⟩]) q := by
    intro q
    cases q <;> rfl
  rw [renderBlock_of_call h, renderBlock_of_call h]
  simp only [renderHelper, if_true, Bool.false_eq_true, if_false, hpart]

/-! Conditions -/

variable {params : List Reference} {hash : List (String × Reference)} {aliases : List String}

theorem blockCall?_condition {name : String} (hn : name = "if" ∨ name = "unless") :
    s.blockCall? ⟨some name, params, hash, aliases⟩ = none := by
  rcases hn with rfl | rfl <;> simp [Setting.blockCall?, BlockKind.of]

/-- `unless` holds where `if` does not. -/
theorem judge_unless : s.judge ⟨some "unless", params, hash, aliases⟩ =
    s.judge ⟨some "if", params, hash, aliases⟩ >>= fun v => pure (v.1, !v.2) := by
  have hif : BlockKind.of ⟨some "if", params, hash, aliases⟩ = .ifTrue := rfl
  have hunless : BlockKind.of ⟨some "unless", params, hash, aliases⟩ = .ifFalse := rfl
  simp only [Setting.judge, hif, hunless, Setting.holds, bind_assoc, pure_bind]
  rfl

theorem renderBlock_negated_if (name name' : String) (ns ms : List Node) :
    renderBlock go s ⟨name, ⟨some "if", params, hash, aliases⟩, true, ns, [⟨none, ms⟩]⟩ =
      renderBlock go s ⟨name', ⟨some "if", params, hash, aliases⟩, false, ms, [⟨none, ns⟩]⟩ := by
  rw [renderBlock_of_no_call (blockCall?_condition (.inl rfl)),
    renderBlock_of_no_call (blockCall?_condition (.inl rfl))]
  refine bind_congr fun v => ?_
  obtain ⟨subject, holds⟩ := v
  cases holds <;> cases subject <;> rfl

theorem renderBlock_unless (name name' : String) (ns ms : List Node) :
    renderBlock go s ⟨name, ⟨some "unless", params, hash, aliases⟩, false, ns, [⟨none, ms⟩]⟩ =
      renderBlock go s ⟨name', ⟨some "if", params, hash, aliases⟩, false, ms, [⟨none, ns⟩]⟩ := by
  rw [renderBlock_of_no_call (blockCall?_condition (.inr rfl)),
    renderBlock_of_no_call (blockCall?_condition (.inl rfl))]
  dsimp only
  rw [judge_unless]
  simp only [Render.eval_bind, Render.eval_pure, bind_assoc, pure_bind]
  refine bind_congr fun v => ?_
  obtain ⟨subject, holds⟩ := v
  cases holds <;> cases subject <;> rfl

end

namespace Walker
variable {w : Walker} {i : Invocation} {left : Nat}

/-- Whether the condition of a block holds where the walker stands. -/
def verdict (w : Walker) (i : Invocation) : Outcome Bool :=
  match w.setting.judge i w.log with
  | .ok v _ => .ok v.2
  | .error e _ => .error e

theorem verdict_eq {r : Except EngineError (Option Value × Bool)} {notes : List String}
    (hr : ∀ log, w.setting.judge i log = Eval.ended r (log ++ notes)) :
    w.verdict i = r.map (·.2) := by
  rw [verdict, hr]
  cases r <;> rfl

/-- What was logged before does not matter to what is rendered. -/
theorem outcome_log (h : w.levels = left + 1) (ns : List Node) (pending : Option PendingBody)
    (log log' : List String) :
    (renderer left w.setting ns).outcome ⟨pending, log⟩ =
      (renderer left w.setting ns).outcome ⟨pending, log'⟩ := by
  have hleft : w.setting.engine.options.maxDepth - (w.depth + 1) = left := by
    rw [levels] at h
    omega
  obtain ⟨c, -, renders, -⟩ := renderer_serves w.setting.engine hleft (Nat.lt_succ_self left)
    w.setting { w with depth := w.depth + 1, pending } ns ⟨rfl, rfl, rfl⟩
  simp only [Render.outcome, renders, Course.ended]
  cases c.outcome <;> rfl

/-- Two nodes, where no hook sees them. -/
theorem directly_pair (hhook : w.setting.engine.options.renderHook = none) (n n' : Node) :
    w.directly [n, n'] = Render.outcome (do
      let out ← renderNode (levelsBelow w.levels) w.setting n
      let out' ← renderNode (levelsBelow w.levels) w.setting n'
      pure (out ++ out')) ⟨w.pending, w.log⟩ := by
  rw [directly, direct_eq, renderer_eq, renderNodes, renderNodes, renderNodes]
  simp only [Setting.hooked_of_none hhook, pure_bind, String.append_empty, bind_pure]

/-- With an `else`, a block shows what it shows without it, and then what its negation shows. -/
theorem outcome_either (hhook : w.setting.engine.options.renderHook = none)
    (h : w.setting.blockCall? i = none) (name : String) (ns ms : List Node) :
    w.outcome (.either name i false ns ms) =
      w.directly [.only name i false ns, .only name i true ms] := by
  rw [directly_pair hhook, outcome_eq]
  cases hl : w.levels with
  | zero => rfl
  | succ left =>
    obtain ⟨r, notes, hr⟩ := w.setting.appends_judge i
    simp only [Node.either, Node.only, renderNode_block_succ, Render.outcome, bind, EStateM.bind]
    cases r with
    | error e =>
      have herror := renderBlock_of_judge h hr (renderer left)
      simp only [herror]
    | ok v =>
      obtain ⟨subject, holds⟩ := v
      cases holds with
      | true =>
        have hholds := fun st => renderBlock_holds h hr (renderer left) name ns ms st
        simp only [(hholds _).1, (hholds _).2]
        generalize renderBlock _ _ _ _ = result
        cases result with
        | error e st => rfl
        | ok out st => exact congrArg Except.ok String.append_empty.symm
      | false =>
        obtain ⟨heither, honly, -⟩ := renderBlock_fails h hr (renderer left) name ns ms
          ⟨w.pending, w.log⟩
        have hnegated := fun st => (renderBlock_fails h hr (renderer left) name ns ms st).2.2
        rw [heither, honly]
        refine (outcome_log hl ms w.pending (w.log ++ notes) (w.log ++ notes ++ notes)).trans ?_
        simp only [hnegated, Render.outcome]
        generalize renderer left w.setting ms _ = result
        cases result with
        | error e st => rfl
        | ok out st => exact congrArg Except.ok String.empty_append.symm

/-- What becomes of the two branches of one condition: exactly one of them is shown, whatever stands
in the other. -/
def Complements (w : Walker) (name : String) (i : Invocation) (ns ms : List Node) : Prop :=
  match w.verdict i with
  | .ok true => w.outcome (.either name i false ns ms) = w.outcome (.only name i false ns) ∧
      w.outcome (.only name i true ms) = .ok ""
  | .ok false => w.outcome (.either name i false ns ms) = w.outcome (.only name i true ms) ∧
      w.outcome (.only name i false ns) = .ok ""
  | .error e => w.outcome (.either name i false ns ms) = .error e ∧
      w.outcome (.only name i false ns) = .error e ∧ w.outcome (.only name i true ms) = .error e

theorem complements (h : w.setting.blockCall? i = none)
    (hd : w.depth < w.setting.engine.options.maxDepth) (name : String) (ns ms : List Node) :
    w.Complements name i ns ms := by
  obtain ⟨left, hl⟩ := exists_levels hd
  obtain ⟨r, notes, hr⟩ := w.setting.appends_judge i
  have hblock := outcome_block_of_succ hl
  rw [Complements, verdict_eq hr]
  cases r with
  | error e =>
    have herror := fun b hb =>
      renderBlock_of_judge h hr (renderer left) b hb ⟨w.pending, w.log⟩
    simp only [Except.map, Node.either, Node.only, hblock, Render.outcome, herror, and_self]
  | ok v =>
    obtain ⟨subject, holds⟩ := v
    cases holds with
    | true =>
      obtain ⟨heither, hnegated⟩ := renderBlock_holds h hr (renderer left) name ns ms
        ⟨w.pending, w.log⟩
      simp only [Except.map, Node.either, Node.only, hblock, Render.outcome, heither, hnegated,
        and_self]
    | false =>
      obtain ⟨heither, honly, hnegated⟩ := renderBlock_fails h hr (renderer left) name ns ms
        ⟨w.pending, w.log⟩
      simp only [Except.map, Node.either, Node.only, hblock, Render.outcome, heither, honly,
        hnegated, and_self]

/-- Without a hook, a block with an `else` shows what the block and its negation show one behind the
other, and one of the two shows nothing. Of `if` and `unless`, the one negates the other. A helper
cannot tell a negated block from one with its parts exchanged. -/
theorem negation_laws (hhook : w.setting.engine.options.renderHook = none) :
    (∀ i, w.setting.Judges i → ∀ name ns ms,
      w.outcome (.either name i false ns ms) =
          w.directly [.only name i false ns, .only name i true ms] ∧
        (w.depth < w.setting.engine.options.maxDepth → w.Complements name i ns ms)) ∧
    (∀ params hash aliases name₁ name₂ name₃ ns ms,
      w.depth < w.setting.engine.options.maxDepth →
      w.outcome (.either name₁ ⟨some "if", params, hash, aliases⟩ true ns ms) =
          w.outcome (.either name₂ ⟨some "if", params, hash, aliases⟩ false ms ns) ∧
        w.outcome (.either name₃ ⟨some "unless", params, hash, aliases⟩ false ns ms) =
          w.outcome (.either name₂ ⟨some "if", params, hash, aliases⟩ false ms ns)) ∧
    (∀ i c, w.setting.blockCall? i = some c → ∀ name ns ms,
      w.outcome (.either name i true ns ms) = w.outcome (.either name i false ms ns)) ∧
    (w.setting.engine.options.maxDepth ≤ w.depth → ∀ b : Block, w.outcome (.block b) =
      .error (.nestingLimit b.name w.setting.engine.options.maxDepth)) := by
  have hlimit : w.setting.engine.options.maxDepth ≤ w.depth → ∀ b : Block, w.outcome (.block b) =
      .error (.nestingLimit b.name w.setting.engine.options.maxDepth) :=
    fun hd b => outcome_block_of_zero (Nat.sub_eq_zero_of_le hd) b
  refine ⟨?_, ?_, ?_, hlimit⟩
  · intro i hi name ns ms
    have h := Setting.blockCall?_eq_none_iff.2 hi
    exact ⟨outcome_either hhook h name ns ms, fun hd => complements h hd name ns ms⟩
  · intro params hash aliases name₁ name₂ name₃ ns ms hd
    obtain ⟨left, hl⟩ := exists_levels hd
    simp only [Node.either, outcome_block_of_succ hl, renderBlock_negated_if name₁ name₂,
      renderBlock_unless name₃ name₂, and_self]
  · intro i c h name ns ms
    rcases Nat.lt_or_ge w.depth w.setting.engine.options.maxDepth with hd | hd
    · obtain ⟨left, hl⟩ := exists_levels hd
      simp only [Node.either, outcome_block_of_succ hl, renderBlock_exchanged h]
    · simp only [Node.either, hlimit hd]

/-- A helper that shows its body about a text, and then the other part. -/
def pairing : Engine := { Engine.create {} with helpers := [("pair", fun _ => do
  let out ← Run.body (some (.string "x"))
  let other ← Run.inverse none
  pure (.safe (out ++ "|" ++ other)))] }

def pairingStart : Walker := .start pairing ⟨[], []⟩ (.object [("xs", .array [.string "1"])]) none

def eachItem : Invocation := ⟨some "each", [.path ⟨["xs"], 0, false⟩], [], []⟩

def contextTag : Node := .value ⟨none, [.path ⟨[], 0, false⟩], [], []⟩ true

theorem negation_laws_pairing :
    pairing.options.renderHook = none ∧
      pairingStart.directly [.only "each" eachItem false [contextTag],
        .only "each" eachItem true [.text "b"]] = .ok "1" ∧
      pairingStart.outcome (.either "pair" ⟨some "pair", [.literal .null], [], []⟩ true
        [.text "a"] [contextTag]) = .ok "x|a" := by
  have hhook : pairing.options.renderHook = none := rfl
  have main := negation_laws (w := pairingStart) hhook
  have heach : pairingStart.outcome
      (.either "each" eachItem false [contextTag] [.text "b"]) = .ok "1" := by rfl
  have hpair : pairingStart.outcome (.either "pair" ⟨some "pair", [.literal .null], [], []⟩ false
      [contextTag] [.text "a"]) = .ok "x|a" := by rfl
  refine ⟨hhook, ?_, ?_⟩
  · rw [← heach]
    exact (main.1 eachItem (.inl ⟨"each", by decide, rfl⟩) "each" [contextTag] [.text "b"]).1.symm
  · rw [← hpair]
    exact main.2.2.1 _ _ rfl "pair" [.text "a"] [contextTag]

end Walker
end TextTemplate
