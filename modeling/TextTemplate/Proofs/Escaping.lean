import TextTemplate.Proofs.Likeness.Node

/-! Data cannot bring markup into what a template renders. -/

namespace TextTemplate

namespace Entities

/-- The characters with a meaning in markup or in an attribute that no entity is written with. -/
def marks : List Char := ['<', '>', '"', '\'', '/', '\x60', '=']

variable {c : Char}

theorem mem_entries_of_get? {e : Entities} {s : String} (h : e.get? c = some s) :
    (c, s) ∈ e.entries := by
  obtain ⟨before, after, hl, -⟩ := List.lookup_eq_some_iff.1 h
  rw [← List.mem_reverse, hl]
  exact List.mem_append_right _ (List.mem_cons_self ..)

theorem notMem_escapeChar_markup (hc : c ∈ marks) (d : Char) : c ∉ markup.escapeChar d := by
  have written : ∀ c ∈ marks, ∀ entry ∈ markup.entries, c ∉ entry.2.toList := by
    simp [marks, markup]
  have replaced : ∀ c ∈ marks, markup.get? c ≠ none := by
    simp [marks, markup, get?, List.lookup_cons]
  rw [escapeChar]
  cases h : markup.get? d with
  | none =>
    intro hmem
    cases List.mem_singleton.1 hmem
    exact replaced c hc h
  | some s => exact written c hc (d, s) (mem_entries_of_get? h)

theorem notMem_escape_markup (hc : c ∈ marks) (text : String) :
    c ∉ (markup.escape text).toList := by
  rw [escape, String.toList_ofList, List.mem_flatMap]
  rintro ⟨d, -, hd⟩
  exact notMem_escapeChar_markup hc d hd

end Entities

/-- Where the computation succeeds from a state as `I` says, its value is as `Q` says, and the state
is as `I` says again. -/
def Gives {σ α : Type} (I : σ → Prop) (Q : α → Prop) (x : EStateM EngineError σ α) : Prop :=
  ∀ st a st', I st → x st = .ok a st' → I st' ∧ Q a

section rules
variable {σ α β : Type} {I : σ → Prop} {P : α → Prop} {Q : β → Prop}

theorem gives_pure {a : α} (h : P a) : Gives I P (pure a) := by
  intro st _ _ hst hx
  cases hx
  exact ⟨hst, h⟩

theorem gives_throw (e : EngineError) : Gives I P (throw e) := nofun

theorem gives_bind {x : EStateM EngineError σ α} {f : α → EStateM EngineError σ β}
    (hx : Gives I P x) (hf : ∀ a, P a → Gives I Q (f a)) : Gives I Q (x >>= f) := by
  intro st b st₂ hst h
  simp only [bind, EStateM.bind] at h
  cases hxst : x st with
  | error e st₁ =>
    rw [hxst] at h
    cases h
  | ok a st₁ =>
    rw [hxst] at h
    obtain ⟨hst₁, ha⟩ := hx st a st₁ hst hxst
    exact hf a ha st₁ b st₂ hst₁ h

theorem gives_map {f : α → β} {x : EStateM EngineError σ α} (hx : Gives I P x)
    (hf : ∀ a, P a → Q (f a)) : Gives I Q (f <$> x) := by
  rw [map_eq_pure_bind]
  exact gives_bind hx fun a ha => gives_pure (hf a ha)

/-- Of any computation that nothing is known of. -/
theorem gives_any (x : Eval α) : Gives (fun _ => True) (fun _ => True) x :=
  fun _ _ _ _ _ => ⟨trivial, trivial⟩

end rules

section states
variable {α : Type} {I : Option PendingBody → Prop} {P : α → Prop}

/-- A computation that keeps what is pending as `I` says. -/
abbrev Render.Keeps (I : Option PendingBody → Prop) (P : α → Prop) (x : Render α) : Prop :=
  Gives (fun st : RenderState => I st.pending) P x

theorem keeps_eval {x : Eval α} (hx : Gives (fun _ => True) P x) : (Render.eval x).Keeps I P := by
  intro st a st' hst h
  simp only [Render.eval] at h
  cases hxst : x st.log with
  | error e log =>
    rw [hxst] at h
    cases h
  | ok b log =>
    rw [hxst] at h
    cases h
    exact ⟨hst, (hx st.log _ log trivial hxst).2⟩

theorem keeps_outcome {x : Render α} (hx : x.Keeps I P) {st : RenderState} (hst : I st.pending)
    {a : α} (h : x.outcome st = .ok a) : P a := by
  rw [Render.outcome] at h
  cases hxst : x st with
  | error e st' =>
    rw [hxst] at h
    cases h
  | ok b st' =>
    rw [hxst] at h
    cases h
    exact (hx st a st' hst hxst).2

theorem keeps_takePending (hnone : I none) : Render.takePending.Keeps I I := by
  intro st p st' hst h
  cases h
  exact ⟨hnone, hst⟩

theorem keeps_leaving {p : Option PendingBody} {x : Render α} (hp : I p) (hx : x.Keeps I P) :
    (Render.leaving p x).Keeps I P := by
  intro st a st' hst h
  simp only [Render.leaving] at h
  cases hxst : x st with
  | error e st₁ =>
    rw [hxst] at h
    cases h
  | ok b st₁ =>
    rw [hxst] at h
    cases h
    exact ⟨hp, (hx st _ st₁ hst hxst).2⟩

theorem keeps_withPending {p : Option PendingBody} {x : Render α} (hp : I p) (hx : x.Keeps I P) :
    (Render.withPending p x).Keeps I P :=
  fun st a st' hst h => keeps_leaving hst hx { st with pending := p } a st' hp h

end states

/-- The tag of a block or of an `else` branch selects one of the engine's helpers. -/
inductive Engine.Selects (e : Engine) (i : Invocation) : Prop
  | called {name : String} (h : e.hasHelper name = true) (hk : BlockKind.of i = .helper)
      (hn : i.helper = some name) : e.Selects i
  | bare {name : String} {p : Reference} (h : e.hasHelper name = true)
      (hk : BlockKind.of i = .plain) (hp : i.params = [p]) (hh : i.hash = [])
      (hn : p.identifier? = some name) : e.Selects i

/-- By itself the node writes only texts as `Q` says: its text is one, its value is escaped, and its
tags select no helper. -/
def Node.Guarded (e : Engine) (Q : String → Prop) : Node → Prop
  | .text s => Q s
  | .value _ escaped => escaped = true
  | .block b => ¬ e.Selects b.invocation ∧
      ∀ a ∈ b.alternates, ∀ i, a.condition = some i → ¬ e.Selects i
  | .partialTag _ => True

/-- All nodes of the list are guarded, at any depth. -/
def GuardedNodes (e : Engine) (Q : String → Prop) (ns : List Node) : Prop :=
  ∀ n : Node, n.Within ns → n.Guarded e Q

/-- All nodes of the template and of the partials that it defines are guarded. -/
def Template.Guarded (t : Template) (e : Engine) (Q : String → Prop) : Prop :=
  ∀ n : Node, t.Holds n → n.Guarded e Q

/-- An engine without hooks, with built-in helpers only and with guarded templates as partials. -/
structure Engine.Guarded (e : Engine) (Q : String → Prop) : Prop where
  unhooked : e.options.renderHook = none
  unstepped : e.options.loopHelper = none
  builtin : ∀ name h, e.helpers.get? name = some h → Helper.builtin.get? name = some h
  partials : ∀ name r, e.partials.get? name = some r → ∃ t, r = .template t ∧ t.Guarded e Q

/-- What holds of every text that is escaped, and of texts put together when it holds of each. -/
structure Engine.Ensures (e : Engine) (Q : String → Prop) : Prop where
  empty : Q ""
  append : ∀ {a b}, Q a → Q b → Q (a ++ b)
  escaped : ∀ s : Setting, s.engine = e → ∀ text, Q (s.escape text)

/-- The partials defined are guarded. -/
def GuardedPartials (e : Engine) (Q : String → Prop) (d : Dict Template) : Prop :=
  ∀ name t, d.get? name = some t → t.Guarded e Q

/-- A pending body is guarded, and so are the partials that are defined around it. -/
def GuardedPending (e : Engine) (Q : String → Prop) (p : Option PendingBody) : Prop :=
  ∀ b, p = some b → GuardedNodes e Q b.nodes ∧ GuardedPartials e Q b.defined

/-- A setting of the engine in which the partials defined are guarded. -/
structure Setting.Guarded (s : Setting) (e : Engine) (Q : String → Prop) : Prop where
  engine_eq : s.engine = e
  defined : GuardedPartials e Q s.defined

/-- Every guarded setting leads to a text as `Q` says. -/
def Writes (e : Engine) (Q : String → Prop) (body : Setting → Render String) : Prop :=
  ∀ s, s.Guarded e Q → (body s).Keeps (GuardedPending e Q) Q

/-- All guarded nodes do that. -/
def WritesAll (e : Engine) (Q : String → Prop) (go : Renderer) : Prop :=
  ∀ ns, GuardedNodes e Q ns → Writes e Q (go · ns)

/-- They do it on the level below, if there is one. -/
def WritesBelow (e : Engine) (Q : String → Prop) (deeper : Option Renderer) : Prop :=
  ∀ go, deeper = some go → WritesAll e Q go

/-- A branch that is taken leads to a text as `Q` says. -/
def OfText (Q : String → Prop) (out : Option String) : Prop := ∀ text, out = some text → Q text

section
variable {e : Engine} {Q : String → Prop} {s : Setting} {body inverse : Setting → Render String}
variable {go : Renderer} {deeper : Option Renderer}

theorem guardedPending_none : GuardedPending e Q none := by
  rintro _ ⟨⟩

theorem Setting.Guarded.push (hs : s.Guarded e Q) (f : Frame) : (s.push f).Guarded e Q :=
  ⟨hs.engine_eq, hs.defined⟩

theorem writes_turns (hq : e.Ensures Q) (he : e.Guarded Q) (hb : Writes e Q body)
    (hs : s.Guarded e Q) (aliases : List String) (container : Value) (length index : Nat)
    (items : List (Value × Value)) :
    (renderTurns body s aliases container length index items).Keeps (GuardedPending e Q) Q := by
  have hstep : s.engine.options.loopHelper = none := by
    rw [hs.engine_eq]
    exact he.unstepped
  induction items generalizing index with
  | nil => exact gives_pure hq.empty
  | cons item items ih =>
    rw [renderTurns]
    refine gives_bind (hb _ (hs.push _)) fun out hout => ?_
    refine gives_bind (ih (index + 1)) fun outs houts => gives_pure ?_
    rw [Setting.stepped_of_none hstep]
    exact hq.append hout houts

theorem writes_chosen (hq : e.Ensures Q) (he : e.Guarded Q) (hb : Writes e Q body)
    (hs : s.Guarded e Q) (kind : BlockKind) (aliases : List String) (subject : Option Value) :
    (renderChosen body s kind aliases subject).Keeps (GuardedPending e Q) Q := by
  cases subject with
  | none =>
    rw [renderChosen]
    split
    · exact hb s hs
    · exact gives_pure hq.empty
  | some v =>
    rw [renderChosen]
    split
    · exact hb s hs
    · split
      · exact writes_turns hq he hb hs aliases v _ 0 _
      · exact hb _ (hs.push _)

theorem writes_ordinary (hq : e.Ensures Q) (he : e.Guarded Q) (hb : Writes e Q body)
    (hs : s.Guarded e Q) (i : Invocation) (negated : Bool) (kind : BlockKind) :
    (renderOrdinary body s i negated kind).Keeps (GuardedPending e Q) (OfText Q) := by
  have hsome : ∀ out, Q out → OfText Q (some out) := by
    rintro out hout _ ⟨⟩
    exact hout
  have hnone : OfText Q none := nofun
  rw [renderOrdinary]
  refine gives_bind (keeps_eval (gives_any _)) fun subject _ => ?_
  refine gives_bind (keeps_eval (gives_any _)) fun holds _ => ?_
  cases negated <;> cases holds <;> simp only [Bool.false_eq_true, if_true, if_false]
  · exact gives_pure hnone
  · exact gives_map (writes_chosen hq he hb hs kind i.aliases subject) hsome
  · exact gives_map (hb s hs) hsome
  · exact gives_pure hnone

theorem selects_of_bareHelper? {i : Invocation} {name : String} (hk : BlockKind.of i = .plain)
    (h : s.bareHelper? i = some name) : s.engine.Selects i := by
  rw [Setting.bareHelper?] at h
  split at h
  · next p hp hh =>
    obtain ⟨hn, hname⟩ := Option.filter_eq_some_iff.1 h
    exact .bare hname hk hp hh hn
  · cases h

/-- A branch whose tag selects no helper is an ordinary one, or one that shows nothing. -/
theorem writes_branch (hq : e.Ensures Q) (he : e.Guarded Q) (hb : Writes e Q body)
    (hs : s.Guarded e Q) {i : Invocation} (hi : ¬ e.Selects i) (negated : Bool) :
    (renderBranch s i negated body inverse).Keeps (GuardedPending e Q) (OfText Q) := by
  rw [renderBranch_eq]
  split
  · next name hn hk =>
    have hnone : s.engine.helpers.get? name = none := by
      cases h : s.engine.helpers.get? name with
      | none => rfl
      | some helper =>
        refine absurd (.called ?_ hk hn) hi
        rw [← hs.engine_eq, Engine.hasHelper, Dict.contains, h]
        rfl
    rw [renderHelper, hnone]
    refine gives_map (gives_pure hq.empty) ?_
    rintro out hout _ ⟨⟩
    exact hout
  · next name hk h =>
    refine absurd (selects_of_bareHelper? hk h) ?_
    rwa [hs.engine_eq]
  · exact writes_ordinary hq he hb hs i negated _

theorem writes_alternates (hq : e.Ensures Q) (he : e.Guarded Q) {alternates : List Alternate}
    (hi : ∀ a ∈ alternates, ∀ i, a.condition = some i → ¬ e.Selects i)
    (hb : ∀ a ∈ alternates, Writes e Q (go · a.body)) :
    Writes e Q (renderAlternates go · alternates) := by
  induction alternates with
  | nil => exact fun s _ => gives_pure hq.empty
  | cons a rest ih =>
    obtain ⟨condition, nodes⟩ := a
    have hnodes : Writes e Q (go · nodes) := hb _ (List.mem_cons_self ..)
    have hrest := ih (fun a ha => hi a (List.mem_cons_of_mem _ ha))
      fun a ha => hb a (List.mem_cons_of_mem _ ha)
    intro s hs
    cases condition with
    | none => exact hnodes s hs
    | some condition =>
      have hcond : ¬ e.Selects condition := hi _ (List.mem_cons_self ..) _ rfl
      dsimp only
      rw [renderAlternates]
      refine gives_bind (writes_branch hq he hnodes hs hcond false) fun out hout => ?_
      cases out with
      | none => exact hrest s hs
      | some out => exact gives_pure (hout out rfl)

theorem GuardedNodes.mono {ns ms : List Node} (h : GuardedNodes e Q ns) (hs : ms ⊆ ns) :
    GuardedNodes e Q ms := fun n hn => h n (hn.mono hs)

theorem writes_block (hq : e.Ensures Q) (he : e.Guarded Q) {b : Block}
    (hgo : WritesAll e Q go) (hb : GuardedNodes e Q [.block b]) :
    Writes e Q (renderBlock go · b) := by
  have hmem : Node.block b ∈ [Node.block b] := List.mem_singleton_self _
  obtain ⟨hi, hai⟩ : Node.Guarded e Q (.block b) := hb _ (.here hmem)
  have hbody : GuardedNodes e Q b.body := fun n hn => hb n (.body hmem hn)
  have halts : ∀ a ∈ b.alternates, GuardedNodes e Q a.body :=
    fun a ha n hn => hb n (.alternate hmem ha hn)
  have hrest := writes_alternates hq he hai fun a ha => hgo a.body (halts a ha)
  intro s hs
  dsimp only
  rw [renderBlock]
  refine gives_bind (writes_branch hq he (hgo b.body hbody) hs hi b.negated) fun out hout => ?_
  cases out with
  | none => exact hrest s hs
  | some out => exact gives_pure (hout out rfl)

/-- An output that is escaped where the tag says so. -/
def HelperOutput.IsValue (out : HelperOutput) : Prop := ∃ v, out = .value v

theorem gives_builtin {name : String} {h : Helper} (hn : Helper.builtin.get? name = some h)
    (c : Call) : Gives (fun _ => True) HelperOutput.IsValue (h c).alone := by
  simp only [Helper.builtin, Dict.get?_cons, Dict.get?_nil] at hn
  split at hn
  · cases hn
    rw [Helper.lookup]
    split
    · exact gives_pure ⟨_, rfl⟩
    · exact gives_throw _
  · split at hn
    · cases hn
      exact gives_bind (gives_any _) fun _ _ => gives_pure ⟨_, rfl⟩
    · cases hn

/-- Neither a reference nor a built-in helper gives a text that escapes escaping. -/
theorem gives_invocation (he : s.engine.Guarded Q) (i : Invocation) :
    Gives (fun _ => True) HelperOutput.IsValue (i.eval s) := by
  obtain ⟨helper, params, hash, aliases⟩ := i
  cases helper with
  | some name =>
    rw [Invocation.eval]
    cases hn : s.engine.helpers.get? name with
    | none => exact gives_pure ⟨_, rfl⟩
    | some helper =>
      refine gives_bind (gives_any _) fun args _ => ?_
      refine gives_bind (gives_any _) fun hash _ => ?_
      exact gives_builtin (he.builtin name helper hn) _
  | none =>
    cases params with
    | nil =>
      rw [Invocation.eval]
      exact gives_pure ⟨_, rfl⟩
    | cons p ps =>
      rw [Invocation.eval]
      cases s.bareHelper? ⟨none, p :: ps, hash, aliases⟩ with
      | none => exact gives_bind (gives_any _) fun v _ => gives_pure ⟨_, rfl⟩
      | some name =>
        dsimp only
        cases hn : s.engine.helpers.get? name with
        | none => exact gives_pure ⟨_, rfl⟩
        | some helper => exact gives_builtin (he.builtin name helper hn) _

theorem writes_descend {α : Type} {P : α → Prop} {name : String} {f : Renderer → Render α}
    (hf : ∀ go, deeper = some go → (f go).Keeps (GuardedPending e Q) P) :
    Render.Keeps (GuardedPending e Q) P (do let go ← s.descend deeper name; f go) := by
  cases deeper with
  | none => exact gives_bind (gives_throw _) fun _ => False.elim
  | some go => exact hf go rfl

theorem Template.Guarded.partials {t : Template} (ht : t.Guarded e Q) {name : String}
    {p : Template} (h : (name, p) ∈ t.partials) : p.Guarded e Q :=
  fun n hn => ht n (.partials h hn)

theorem GuardedPartials.insertAll {d : Dict Template} (hd : GuardedPartials e Q d) {t : Template}
    (ht : t.Guarded e Q) : GuardedPartials e Q (d.insertAll t.partials) := by
  intro name p hp
  rcases Dict.mem_of_get?_insertAll hp with hmem | hget
  · exact ht.partials hmem
  · exact hd name p hget

theorem writes_partial (he : e.Guarded Q)
    (hd : WritesBelow e Q deeper)
    (hs : s.Guarded e Q) (name : String) (i : Invocation) {body : Option (List Node)}
    (hb : ∀ ns, body = some ns → GuardedNodes e Q ns) {target : Registered}
    (ht : s.partial? name = some target) :
    (renderPartial deeper s name i body target).Keeps (GuardedPending e Q) Q := by
  obtain ⟨t, rfl, hguarded⟩ : ∃ t, target = .template t ∧ t.Guarded e Q := by
    rw [Setting.partial?] at ht
    cases hdef : s.defined.get? name with
    | none =>
      rw [hdef, hs.engine_eq] at ht
      exact he.partials name target ht
    | some t =>
      rw [hdef] at ht
      cases ht
      exact ⟨t, rfl, hs.defined name t hdef⟩
  have hpending : GuardedPending e Q (body.map fun ns => ⟨ns, s.scope, s.defined⟩) := by
    intro b hbody
    obtain ⟨ns, rfl, rfl⟩ := Option.map_eq_some_iff.1 hbody
    exact ⟨hb ns rfl, hs.defined⟩
  rw [renderPartial_eq]
  refine gives_bind (keeps_eval (gives_any _)) fun context _ => ?_
  refine gives_bind (keeps_eval (gives_any _)) fun hash _ => ?_
  have hnodes : GuardedNodes e Q t.nodes := fun n hn => hguarded n (.nodes hn)
  refine keeps_withPending hpending (writes_descend fun go hgo => ?_)
  exact hd go hgo t.nodes hnodes _ ⟨hs.engine_eq, hs.defined.insertAll hguarded⟩

theorem writes_tag (he : e.Guarded Q)
    (hd : WritesBelow e Q deeper)
    (hs : s.Guarded e Q) (name : PartialName) (i : Invocation) {body : Option (List Node)}
    (hb : ∀ ns, body = some ns → GuardedNodes e Q ns) {fallback : Render String}
    (hf : fallback.Keeps (GuardedPending e Q) Q) :
    (renderTag deeper s name i body fallback).Keeps (GuardedPending e Q) Q := by
  rw [renderTag]
  refine gives_bind (keeps_eval (gives_any _)) fun called _ => ?_
  split
  · refine gives_bind (keeps_takePending guardedPending_none) fun pending hp => ?_
    cases pending with
    | none => exact hf
    | some p =>
      obtain ⟨hnodes, hdefined⟩ := hp p rfl
      refine writes_descend fun go hgo => keeps_leaving hp ?_
      exact hd go hgo p.nodes hnodes _ ⟨hs.engine_eq, hdefined⟩
  · cases ht : s.partial? called with
    | none => exact hf
    | some target => exact writes_partial he hd hs called i hb ht

mutual

theorem writes_node (hq : e.Ensures Q) (he : e.Guarded Q)
    (hd : WritesBelow e Q deeper)
    (hs : s.Guarded e Q) :
    ∀ n, GuardedNodes e Q [n] → (renderNode deeper s n).Keeps (GuardedPending e Q) Q
  | .text text, hn => by
    rw [renderNode]
    exact gives_pure (hn (.text text) (.here (List.mem_singleton_self _)))
  | .value i escaped, hn => by
    have hescaped : escaped = true := hn (.value i escaped) (.here (List.mem_singleton_self _))
    have he' : s.engine.Guarded Q := by rwa [hs.engine_eq]
    rw [renderNode, hescaped]
    refine gives_bind (keeps_eval (gives_invocation he' i)) fun out hout => gives_pure ?_
    obtain ⟨v, rfl⟩ := hout
    exact hq.escaped s hs.engine_eq v.display
  | .block b, hn => by
    rw [renderNode]
    exact writes_descend fun go hgo => writes_block hq he (hd go hgo) hn s hs
  | .partialTag ⟨name, i, some body⟩, hn => by
    have hbody : GuardedNodes e Q body :=
      fun n h => hn n (.partialBody (List.mem_singleton_self _) h)
    rw [renderNode_partialTag]
    refine writes_tag he hd hs name i ?_ (writes_nodes hq he hd hs body hbody)
    rintro _ ⟨⟩
    exact hbody
  | .partialTag ⟨name, i, none⟩, _ => by
    rw [renderNode_partialTag]
    refine writes_tag he hd hs name i ?_ (gives_pure hq.empty)
    rintro _ ⟨⟩

theorem writes_nodes (hq : e.Ensures Q) (he : e.Guarded Q)
    (hd : WritesBelow e Q deeper)
    (hs : s.Guarded e Q) :
    ∀ ns, GuardedNodes e Q ns → (renderNodes deeper s ns).Keeps (GuardedPending e Q) Q
  | [], _ => by
    rw [renderNodes]
    exact gives_pure hq.empty
  | n :: ns, h => by
    have hn : GuardedNodes e Q [n] := h.mono (by simp)
    have hns : GuardedNodes e Q ns := h.mono (by simp)
    have hhook : s.engine.options.renderHook = none := by
      rw [hs.engine_eq]
      exact he.unhooked
    rw [renderNodes]
    refine gives_bind (writes_node hq he hd hs n hn) fun out hout => ?_
    refine gives_bind (writes_nodes hq he hd hs ns hns) fun outs houts => gives_pure ?_
    rw [Setting.hooked_of_none hhook]
    exact hq.append hout houts

end

theorem writes_renderer (hq : e.Ensures Q) (he : e.Guarded Q) (left : Nat) :
    WritesAll e Q (renderer left) := by
  induction left with
  | zero =>
    intro ns hns s hs
    refine writes_nodes hq he ?_ hs ns hns
    rintro _ ⟨⟩
  | succ left ih =>
    intro ns hns s hs
    refine writes_nodes hq he ?_ hs ns hns
    rintro _ ⟨⟩
    exact ih

end

namespace Engine
variable {e : Engine} {Q : String → Prop} {t : Template} {data : Value} {extra : Option Value}
variable {out : String}

/-- What holds of everything that is escaped holds of the output of a guarded template. -/
theorem ensured_of_guarded (hq : e.Ensures Q) (he : e.Guarded Q) (ht : t.Guarded e Q)
    (h : (e.render t data extra).result = .ok out) : Q out := by
  have hs : (Walker.start e t data extra).setting.Guarded e Q :=
    ⟨rfl, GuardedPartials.insertAll (d := []) nofun ht⟩
  have hnodes : GuardedNodes e Q t.nodes := fun n hn => ht n (.nodes hn)
  rw [result_render, Walker.directly, Walker.direct_eq] at h
  exact keeps_outcome (writes_renderer hq he _ t.nodes hnodes _ hs) guardedPending_none h

/-- The text has no such character. -/
def Lacks (c : Char) (text : String) : Prop := c ∉ text.toList

theorem ensures_lacks (he : e.options.escapeHtml = true) (hm : e.options.entities = .markup)
    {c : Char} (hc : c ∈ Entities.marks) : e.Ensures (Lacks c) where
  empty := by simp [Lacks]
  append := by
    intro a b ha hb
    rw [Lacks, String.toList_append, List.mem_append]
    exact not_or.2 ⟨ha, hb⟩
  escaped := by
    rintro s rfl text
    rw [Setting.escape, if_pos he, hm]
    exact Entities.notMem_escape_markup hc text

/-- Data brings no markup into the output: a character with a meaning there that no text of the
templates has is not in what a render gives. -/
theorem data_brings_no_markup {c : Char} (hc : c ∈ Entities.marks)
    (hesc : e.options.escapeHtml = true) (hm : e.options.entities = .markup)
    (he : e.Guarded (Lacks c)) (ht : t.Guarded e (Lacks c))
    (h : (e.render t data extra).result = .ok out) : c ∉ out.toList :=
  ensured_of_guarded (ensures_lacks hesc hm hc) he ht h

/-- Shows what it is about in brackets. -/
def bracketed : Template := ⟨[
  .text "[", .value ⟨none, [.path ⟨[], 0, false⟩], [], []⟩ true, .text "]"], []⟩

/-- Shows each item of its context by that partial, and one by a helper. -/
def items : Template := ⟨[
  .block ⟨"each", ⟨some "each", [.path ⟨[], 0, false⟩], [], []⟩, false,
    [.partialTag ⟨.fixed "item", .empty, none⟩], []⟩,
  .value ⟨some "lookup", [.path ⟨[], 0, false⟩, .literal (.number (.int 0))], [], []⟩ true], []⟩

/-- An engine with the partial. -/
def bracketing : Engine := { create {} with partials := [("item", .template bracketed)] }

theorem data_brings_no_markup_items :
    (bracketing.render items (.array [.string "<b>", .string "a=b"]) none).result =
      .ok "[&lt;b&gt;][a&#x3D;b]&lt;b&gt;" ∧
    '<' ∉ "[&lt;b&gt;][a&#x3D;b]&lt;b&gt;".toList := by
  have hout : (bracketing.render items (.array [.string "<b>", .string "a=b"]) none).result =
      .ok "[&lt;b&gt;][a&#x3D;b]&lt;b&gt;" := by rfl
  have hbracketed : bracketed.Guarded bracketing (Lacks '<') := by
    rintro n (h | ⟨⟨⟩, -⟩)
    simp only [bracketed, Node.within_cons, Node.within_nil, Node.Inside, false_or, or_false] at h
    rcases h with rfl | rfl | rfl
    · show '<' ∉ "[".toList
      decide
    · rfl
    · show '<' ∉ "]".toList
      decide
  have hitems : items.Guarded bracketing (Lacks '<') := by
    rintro n (h | ⟨⟨⟩, -⟩)
    simp only [items, Node.within_cons, Node.within_nil, Node.Inside, List.not_mem_nil, false_and,
      exists_false, reduceCtorEq, or_false] at h
    rcases h with rfl | rfl | rfl
    · constructor
      · rintro (⟨-, hk, -⟩ | ⟨-, hk, -⟩) <;> cases hk
      · rintro _ ⟨⟩
    · trivial
    · rfl
  have he : bracketing.Guarded (Lacks '<') := by
    refine ⟨rfl, rfl, fun _ _ => id, ?_⟩
    intro name r hr
    simp only [bracketing, Engine.create, Dict.get?_cons, Dict.get?_nil] at hr
    split at hr
    · cases hr
      exact ⟨bracketed, rfl, hbracketed⟩
    · cases hr
  exact ⟨hout, data_brings_no_markup (by decide) rfl rfl he hitems hout⟩

end Engine
end TextTemplate
