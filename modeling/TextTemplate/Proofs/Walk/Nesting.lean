import TextTemplate.Proofs.Walk.Height
import TextTemplate.Proofs.Walk.Levels

/-! How far lists of nodes stand inside one another while a template is rendered. -/

namespace TextTemplate
namespace Walk

section
variable {inner : List Node → Walk (Outcome String)} {rest : Walk (Outcome String)} {k h : Nat}
variable {e : Engine} {body : List Node}

theorem opens_inFrame (f : Frame) (hb : Opens e k h (inner body)) :
    Opens e k h (inFrame inner f body) := by
  rw [inFrame]
  refine opens_bind (opens_change fun _ => ⟨rfl, rfl⟩) fun _ => ?_
  exact opens_before hb (opens_change pop_same)

theorem opens_turns (aliases : List String) (container : Value) (length index : Nat)
    (items : List (Value × Value)) (hb : Opens e k h (inner body)) :
    Opens e k h (turns inner aliases container length index body items) := by
  induction items generalizing index with
  | nil => exact opens_pure _
  | cons item items ih =>
    rw [turns]
    refine opens_andThen (opens_inFrame _ hb) (fun _ => rfl) fun out => ?_
    refine opens_get fun w _ => ?_
    exact opens_andThen (ih (index + 1)) (fun _ => rfl) fun outs => opens_pure _

theorem opens_chosen (kind : BlockKind) (aliases : List String) (subject : Option Value)
    (hb : Opens e k h (inner body)) : Opens e k h (chosen inner kind aliases subject body) := by
  have hturns := fun v : Value => opens_turns aliases v v.items.length 0 v.items hb
  have hframe := fun v : Value => opens_inFrame (.binding v aliases [v]) hb
  rw [chosen.eq_def]
  cases subject with
  | none => cases kind <;> first | exact hb | exact opens_pure _
  | some v =>
    cases kind with
    | ifTrue | ifFalse => exact hb
    | each => exact hturns v
    | withValue | helper => exact hframe v
    | plain =>
      by_cases hv : v.isArray
      · simpa [hv] using hturns v
      · simpa [hv] using hframe v

theorem opens_ordinary (i : Invocation) (negated : Bool) (kind : BlockKind)
    (hb : Opens e k h (inner body)) : Opens e k h (ordinary inner i negated kind body) := by
  rw [ordinary]
  refine opens_andThen (opens_eval _) (fun _ => rfl) fun subject => ?_
  refine opens_andThen (opens_eval _) (fun _ => rfl) fun holds => ?_
  cases negated <;> cases holds <;> simp only [Bool.false_eq_true, if_true, if_false]
  · exact opens_pure _
  · exact opens_andThen (opens_chosen kind i.aliases subject hb)
      (fun _ => rfl) fun out => opens_pure _
  · exact opens_andThen hb (fun _ => rfl) fun out => opens_pure _
  · exact opens_pure _

theorem opens_part (p : Part) (context : Option Value) (hb : Opens e k h (inner body))
    (hr : Opens e k h rest) : Opens e k h (part inner p context body rest) := by
  have hhere : Opens e k h (partHere inner p body rest) := by
    cases p with
    | body => exact hb
    | inverse => exact hr
  rw [part.eq_def]
  cases context with
  | none => exact hhere
  | some context =>
    refine opens_bind (opens_change fun _ => ⟨rfl, rfl⟩) fun _ => ?_
    exact opens_before hhere (opens_change pop_same)

theorem opens_run (negated : Bool) (run : Run HelperOutput) (hb : Opens e k h (inner body))
    (hr : Opens e k h rest) : Opens e k h (Walk.run inner negated body rest run) := by
  induction run with
  | done r => exact opens_pure r
  | render p context next ih =>
    rw [Walk.run]
    exact opens_bind (opens_part _ context hb hr) fun r => ih r
  | note message next ih =>
    rw [Walk.run]
    exact opens_bind (opens_note message) fun _ => ih

theorem opens_helper (name : String) (params : List Reference) (hash : List (String × Reference))
    (negated : Bool) (hb : Opens e k h (inner body)) (hr : Opens e k h rest) :
    Opens e k h (helper inner name params hash negated body rest) := by
  rw [helper]
  refine opens_get fun w _ => ?_
  cases w.setting.engine.helpers.get? name with
  | none => exact opens_pure _
  | some helper =>
    refine opens_andThen (opens_eval _) (fun _ => rfl) fun args => ?_
    refine opens_andThen (opens_eval _) (fun _ => rfl) fun hash => ?_
    refine opens_get fun w _ => ?_
    refine opens_andThen (opens_run negated _ hb hr) (fun _ => rfl) fun out => ?_
    exact opens_get fun w _ => opens_pure _

theorem opens_branch (i : Invocation) (negated : Bool) (hb : Opens e k h (inner body))
    (hr : Opens e k h rest) : Opens e k h (branch inner i negated body rest) := by
  have ho := fun kind => opens_ordinary i negated kind hb
  have hh := fun name params hash => opens_helper name params hash negated hb hr
  rw [branch]
  refine opens_get fun w _ => ?_
  split
  · exact opens_andThen (hh _ _ _) (fun _ => rfl) fun out => opens_pure _
  · exact opens_andThen (hh _ _ _) (fun _ => rfl) fun out => opens_pure _
  · exact ho _

theorem opens_alternates (hi : ∀ ns, fallbacksOf e ns ≤ k → Opens e k h (inner ns)) :
    ∀ rest, fallbacksIn e rest ≤ k → Opens e k h (alternates inner rest)
  | [], _ => opens_pure _
  | ⟨none, body⟩ :: rest, hk => by
    rw [fallbacksIn] at hk
    rw [alternates]
    exact hi body (by omega)
  | ⟨some condition, body⟩ :: rest, hk => by
    rw [fallbacksIn] at hk
    have hrest := opens_alternates hi rest (by omega)
    rw [alternates]
    refine opens_andThen (opens_branch condition false (hi body (by omega)) hrest)
      (fun _ => rfl) fun out => ?_
    cases out with
    | none => exact hrest
    | some out => exact opens_pure _

theorem opens_block (hi : ∀ ns, fallbacksOf e ns ≤ k → Opens e k h (inner ns)) (b : Block)
    (hk : (Node.block b).fallbacks e ≤ k) : Opens e k h (block inner b) := by
  cases b with
  | mk name i negated body rest =>
    rw [Node.fallbacks] at hk
    have hrest := opens_alternates hi rest (by omega)
    rw [block]
    refine opens_andThen (opens_branch i negated (hi body (by omega)) hrest)
      (fun _ => rfl) fun out => ?_
    cases out with
    | none => exact hrest
    | some out => exact opens_pure _

/-- A pending body is shown where it was written, and is there again afterwards. -/
theorem pendingBody_apply {w : Walker} (hd : w.depth < w.setting.engine.options.maxDepth)
    (p : PendingBody) :
    pendingBody inner p w = (inner p.nodes (atBody w p)).map fun r => (r.1, { r.2 with
      setting := { r.2.setting with scope := w.setting.scope, defined := w.setting.defined }
      pending := some ⟨p.nodes, r.2.setting.scope, r.2.setting.defined⟩
      depth := r.2.depth - 1
      events := w.events ++ [.aside r.2.events] }) := by
  rw [pendingBody, Option.map_eq_bind]
  simp only [bind_apply, modify_apply, get_apply, record_apply, change_apply, close_apply,
    ascend_apply, pure_apply, Option.bind_some, descend_of_lt { w with pending := none } _ hd]
  rfl

theorem opens_pendingBody (hi : ∀ ns, fallbacksOf e ns ≤ k → Opens e k h (inner ns)) {p : PendingBody}
    (hp : fallbacksOf e p.nodes ≤ k ∧ Shallow e k p.defined) : Opens e k h (pendingBody inner p) := by
  obtain ⟨hk, hdefined⟩ := hp
  intro w r w' hw hr
  by_cases hd : w.setting.engine.options.maxDepth ≤ w.depth
  · rw [pendingBody_of_le hd] at hr
    cases hr
    exact ⟨⟨hw.engine_eq, hw.registered, hw.defined, nofun⟩, [.stopped], rfl, Nat.zero_le h⟩
  · rw [pendingBody_apply (Nat.lt_of_not_le hd)] at hr
    obtain ⟨⟨a, w₁⟩, h₁, h₂⟩ := Option.map_eq_some_iff.1 hr
    cases h₂
    have hthere : Tame e k (atBody w p) := ⟨hw.engine_eq, hw.registered, hdefined, nofun⟩
    obtain ⟨hw₁, es, hes, ht⟩ := hi p.nodes hk _ _ _ hthere h₁
    have hinside : w₁.events = es := hes
    refine ⟨⟨hw₁.engine_eq, hw₁.registered, hw.defined, ?_⟩, [.aside w₁.events], rfl, ?_⟩
    · rintro _ ⟨⟩
      exact ⟨hk, hw₁.defined⟩
    · rw [tallest_singleton, Event.height, hinside]
      exact ht

theorem opens_framed (f : Frame) {t : Template} (ht : t.fallbacks e ≤ k)
    (hi : Opens e k h (inner t.nodes)) : Opens e k h (framed inner f t) := by
  have hdefine : Opens e k h (change fun s => { s with defined := s.defined.insertAll t.partials }) :=
    opens_modify fun w hw =>
      ⟨⟨hw.engine_eq, hw.registered, hw.defined.insertAll ht, hw.pending⟩, rfl⟩
  rw [framed]
  refine opens_get fun w _ => ?_
  split
  · refine opens_bind (opens_change fun _ => ⟨rfl, rfl⟩) fun _ => ?_
    refine opens_bind hdefine fun _ => ?_
    exact opens_before hi (opens_change fun _ => ⟨rfl, rfl⟩)
  · refine opens_bind (opens_change fun _ => ⟨rfl, rfl⟩) fun _ => ?_
    refine opens_bind hdefine fun _ => ?_
    exact opens_before hi (opens_change pop_same)

theorem opens_entered (name : String) (f : Frame) {t : Template} (ht : t.fallbacks e ≤ k)
    (hi : Opens e k h (inner t.nodes)) : Opens e k h (entered inner name f t) := by
  rw [entered]
  refine opens_andThen (opens_descend name) (fun _ => rfl) fun _ => ?_
  exact opens_before (opens_framed f ht hi) opens_ascend

theorem included_apply (name : String) (f : Frame) (body : Option (List Node)) (t : Template)
    (w : Walker) :
    included inner name f body t w =
      (entered inner name f t { w with pending := bodyAt w body, events := [] }).map fun r =>
        (r.1, { r.2 with
          setting := { r.2.setting with defined := w.setting.defined }
          pending := w.pending
          events := w.events ++ [.aside r.2.events] }) := by
  rw [included, Option.map_eq_bind]
  simp only [bind_apply, modify_apply, get_apply, record_apply, close_apply, pure_apply,
    Option.bind_some]
  rfl

theorem opens_included (name : String) (f : Frame) {body : Option (List Node)} {t : Template}
    (hbody : ∀ ns, body = some ns → fallbacksOf e ns ≤ k) (ht : t.fallbacks e ≤ k)
    (hi : Opens e k h (inner t.nodes)) : Opens e k h (included inner name f body t) := by
  intro w r w' hw hr
  rw [included_apply] at hr
  obtain ⟨⟨a, w₁⟩, h₁, h₂⟩ := Option.map_eq_some_iff.1 hr
  cases h₂
  have hthere : Tame e k { w with pending := bodyAt w body, events := [] } := by
    refine ⟨hw.engine_eq, hw.registered, hw.defined, ?_⟩
    intro p hp
    obtain ⟨ns, hns, rfl⟩ := Option.map_eq_some_iff.1 hp
    exact ⟨hbody ns hns, hw.defined⟩
  obtain ⟨hw₁, es, hes, ht⟩ := opens_entered name f ht hi _ _ _ hthere h₁
  have hinside : w₁.events = es := hes
  refine ⟨⟨hw₁.engine_eq, hw₁.registered, hw.defined, hw.pending⟩, [.aside w₁.events], rfl, ?_⟩
  rw [tallest_singleton, Event.height, hinside]
  exact ht

theorem opens_found (name : String) (i : Invocation) {body : Option (List Node)}
    {target : Registered} (hbody : ∀ ns, body = some ns → fallbacksOf e ns ≤ k)
    (ht : target.fallbacks e ≤ k) (hi : ∀ ns, fallbacksOf e ns ≤ k → Opens e k h (inner ns)) :
    Opens e k h (found inner name i body target) := by
  rw [found]
  refine opens_andThen (opens_eval _) (fun _ => rfl) fun context => ?_
  refine opens_andThen (opens_eval _) (fun _ => rfl) fun hash => ?_
  cases target with
  | native f => exact opens_pure _
  | template t => exact opens_included name _ hbody ht (hi _ (Nat.le_trans t.nodes_le ht))

/-- What a partial tag does when its name is known. -/
def called (inner : List Node → Walk (Outcome String)) (name : String) (i : Invocation)
    (body : Option (List Node)) : Walk (Outcome String) := do
  let w ← get
  if name = partialBlockName then
    match w.pending with
    | some p => pendingBody inner p
    | none => fallback inner body
  else
    match w.setting.partial? name with
    | some target => found inner name i body target
    | none => fallback inner body

theorem opens_called (hi : ∀ ns, fallbacksOf e ns ≤ k → Opens e k h (inner ns)) {h' : Nat}
    (hh : h ≤ h') (name : String) (i : Invocation) {body : Option (List Node)}
    (hbody : ∀ ns, body = some ns → fallbacksOf e ns ≤ k)
    (hf : name = partialBlockName ∨ e.partials.get? name = none →
      Opens e k h' (fallback inner body)) :
    Opens e k h' (called inner name i body) := by
  rw [called]
  refine opens_get fun w hw => ?_
  by_cases hn : name = partialBlockName
  · simp only [hn, if_true]
    cases hp : w.pending with
    | none => exact hf (.inl hn)
    | some p => exact opens_mono (opens_pendingBody hi (hw.pending p hp)) hh
  · simp only [hn, if_false]
    cases hp : w.setting.partial? name with
    | none => exact hf (.inr (hw.get?_of_partial? hp))
    | some target =>
      refine opens_mono (opens_found name i hbody ?_ hi) hh
      cases target with
      | native f => exact Nat.zero_le k
      | template t => exact hw.partial_le hp

theorem opens_partialTag (hi : ∀ ns, fallbacksOf e ns ≤ k → Opens e k h (inner ns)) {h' : Nat}
    (hh : h ≤ h') (name : PartialName) (i : Invocation) {body : Option (List Node)}
    (hbody : ∀ ns, body = some ns → fallbacksOf e ns ≤ k)
    (hf : name.mayLack e → Opens e k h' (fallback inner body)) :
    Opens e k h' (node inner (.partialTag ⟨name, i, body⟩)) := by
  have hcalled := fun name hf => opens_called hi hh name i hbody hf
  rw [node.eq_def]
  refine opens_evalThen (fun _ => rfl) fun value hvalue => ?_
  -- A fixed name is the one that was looked up, so that the engine itself lacks it.
  refine hcalled value fun hlacks => hf ?_
  cases name with
  | computed call => rfl
  | fixed name =>
    obtain ⟨s, log, log', hname⟩ := hvalue
    cases hname
    exact PartialName.mayLack_fixed hlacks

mutual

/-- The body of a tag that finds no partial is the only list that opens on the level of its tag. -/
theorem opens_node (hi : ∀ ns, fallbacksOf e ns ≤ k → Opens e k h (inner ns)) :
    ∀ n : Node, n.fallbacks e ≤ k → Opens e k (h + n.chain e) (node inner n)
  | .text s, _ => by
    rw [node]
    exact opens_pure _
  | .value i escaped, _ => by
    rw [node]
    refine opens_andThen (opens_eval _) (fun _ => rfl) fun out => ?_
    exact opens_get fun w _ => opens_pure _
  | .block b, hk => by
    rw [node]
    refine opens_andThen (opens_descend b.name) (fun _ => rfl) fun _ => ?_
    exact opens_before (opens_block hi b hk) opens_ascend
  | .partialTag ⟨name, i, none⟩, _ =>
    opens_partialTag hi (Nat.le_refl h) name i nofun fun _ => opens_pure _
  | .partialTag ⟨name, i, some body⟩, hk => by
    rw [Node.fallbacks] at hk
    have hbody : fallbacksOf e body ≤ k := Nat.le_trans (Nat.le_max_right ..) hk
    refine opens_partialTag hi (Nat.le_add_right h _) name i ?_ ?_
    · rintro _ ⟨⟩
      exact hbody
    · intro hlack
      rw [Node.chain, if_pos hlack]
      exact opens_filed (opens_nodes hi body hbody)

theorem opens_nodes (hi : ∀ ns, fallbacksOf e ns ≤ k → Opens e k h (inner ns)) :
    ∀ ns, fallbacksOf e ns ≤ k → Opens e k (h + chainOf e ns) (nodes inner ns)
  | [], _ => by
    rw [nodes]
    exact opens_pure _
  | n :: ns, hk => by
    rw [fallbacksOf] at hk
    have hn := opens_node hi n (by omega)
    have hns := opens_nodes hi ns (by omega)
    rw [nodes, chainOf]
    refine opens_andThen (opens_mono hn (by omega)) (fun _ => rfl) fun out => ?_
    refine opens_get fun w _ => ?_
    exact opens_andThen (opens_mono hns (by omega)) (fun _ => rfl) fun outs => opens_pure _

end

/-- Every level opens its own list and, inside that one, at most `k` bodies of partial tags. -/
theorem opens_upTo (levels : Nat) :
    ∀ ns, fallbacksOf e ns ≤ k → Opens e k (levels * (k + 1)) (upTo levels ns) := by
  induction levels with
  | zero =>
    intro ns _ w r w' _ hr
    cases hr
  | succ levels ih =>
    intro ns hk
    -- What is a level deeper stands inside the innermost of the bodies on this one.
    have hchain : chainOf e ns ≤ fallbacksOf e ns := chainOf_le ns
    have hlist := opens_filed (opens_nodes ih ns hk)
    rw [upTo]
    refine opens_mono hlist ?_
    rw [Nat.succ_mul]
    omega

end
end Walk
end TextTemplate
