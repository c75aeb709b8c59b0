import TextTemplate.Proofs.Grammar.Compile
import TextTemplate.Proofs.Occurrence

/-! The invocations in a template and what each is there for: they are those of its symbols, and so of
the tags of its source. -/

namespace TextTemplate

/-- What an invocation is there for. -/
inductive Role
  | value
  | block
  | condition
  | arguments
  | name
deriving DecidableEq

/-- The invocation stands in the node itself, not in a node inside. -/
inductive Node.Mentions : Node → Role → Invocation → Prop
  | value {i : Invocation} {escaped : Bool} : Mentions (.value i escaped) .value i
  | block {b : Block} : Mentions (.block b) .block b.invocation
  | condition {b : Block} {a : Alternate} {i : Invocation} (ha : a ∈ b.alternates)
      (hc : a.condition = some i) : Mentions (.block b) .condition i
  | arguments {tag : PartialTag} : Mentions (.partialTag tag) .arguments tag.invocation
  | name {tag : PartialTag} {call : Invocation} (h : tag.name = .computed call) :
      Mentions (.partialTag tag) .name call

/-- The invocation stands in the template or in a partial that it defines. -/
def Template.Mentions (T : Template) (role : Role) (i : Invocation) : Prop :=
  ∃ n, T.Holds n ∧ n.Mentions role i

inductive Symbol.Mentions : Symbol → Role → Invocation → Prop
  | value {i : Invocation} {escaped : Bool} : Mentions (.value i escaped) .value i
  | block {name : List Char} {i : Invocation} {negated : Bool} :
      Mentions (.openBlock name i negated) .block i
  | condition {i : Invocation} : Mentions (.alternative (some i)) .condition i
  | arguments {name : PartialName} {i : Invocation} : Mentions (.partialTag name i) .arguments i
  | openArguments {name : PartialName} {i : Invocation} :
      Mentions (.openPartial name i) .arguments i
  | name {call i : Invocation} : Mentions (.partialTag (.computed call) i) .name call
  | openName {call i : Invocation} : Mentions (.openPartial (.computed call) i) .name call

section
variable {role : Role} {i j call : Invocation} {ns : List Node} {n : Node} {b : Block}
  {tag : PartialTag} {name : PartialName} {o : Option Node} {ts : List Tree} {s : String}
  {w : List Char} {negated escaped : Bool} {condition : Option Invocation}

/-- The invocation stands in one of the nodes, at any depth. -/
def Role.Among (role : Role) (i : Invocation) (ns : List Node) : Prop :=
  ∃ n : Node, n.Within ns ∧ n.Mentions role i

/-- The invocation stands in the node, at any depth. -/
def Role.Inside (role : Role) (i : Invocation) (n : Node) : Prop :=
  n.Mentions role i ∨ ∃ m : Node, m.Inside n ∧ m.Mentions role i

/-- The invocation is the condition of the branch, or stands in its body. -/
def Role.InBranch (role : Role) (i : Invocation) (a : Alternate) : Prop :=
  (role = .condition ∧ a.condition = some i) ∨ role.Among i a.body

namespace Role

theorem among_nil : ¬ role.Among i [] := by
  rintro ⟨n, h, -⟩
  exact Node.within_nil h

theorem among_cons : role.Among i (n :: ns) ↔ role.Inside i n ∨ role.Among i ns := by
  simp only [Among, Inside, Node.within_cons]
  constructor
  · rintro ⟨m, rfl | h | h, hm⟩
    · exact .inl (.inl hm)
    · exact .inl (.inr ⟨m, h, hm⟩)
    · exact .inr ⟨m, h, hm⟩
  · rintro ((hm | ⟨m, h, hm⟩) | ⟨m, h, hm⟩)
    · exact ⟨n, .inl rfl, hm⟩
    · exact ⟨m, .inr (.inl h), hm⟩
    · exact ⟨m, .inr (.inr h), hm⟩

theorem inside_text : ¬ role.Inside i (.text s) := by
  rintro (h | ⟨m, h, -⟩)
  · cases h
  · exact h

theorem inside_value : role.Inside i (.value j escaped) ↔ role = .value ∧ i = j := by
  constructor
  · rintro (h | ⟨m, h, -⟩)
    · cases h
      exact ⟨rfl, rfl⟩
    · exact h.elim
  · rintro ⟨rfl, rfl⟩
    exact .inl .value

theorem inside_block : role.Inside i (.block b) ↔
    (role = .block ∧ i = b.invocation) ∨ role.Among i b.body ∨
      ∃ a ∈ b.alternates, role.InBranch i a := by
  constructor
  · rintro (h | ⟨m, h | ⟨a, ha, h⟩, hm⟩)
    · cases h with
      | block => exact .inl ⟨rfl, rfl⟩
      | condition ha hc => exact .inr (.inr ⟨_, ha, .inl ⟨rfl, hc⟩⟩)
    · exact .inr (.inl ⟨m, h, hm⟩)
    · exact .inr (.inr ⟨a, ha, .inr ⟨m, h, hm⟩⟩)
  · rintro (⟨rfl, rfl⟩ | ⟨m, h, hm⟩ | ⟨a, ha, ⟨rfl, hc⟩ | ⟨m, h, hm⟩⟩)
    · exact .inl .block
    · exact .inr ⟨m, .inl h, hm⟩
    · exact .inl (.condition ha hc)
    · exact .inr ⟨m, .inr ⟨a, ha, h⟩, hm⟩

theorem inside_partialTag {body : Option (List Node)} :
    role.Inside i (.partialTag ⟨name, j, body⟩) ↔
      (role = .arguments ∧ i = j) ∨ (role = .name ∧ name = .computed i) ∨
        ∃ ns ∈ body, role.Among i ns := by
  constructor
  · rintro (h | ⟨m, ⟨ns, hb, h⟩, hm⟩)
    · cases h with
      | arguments => exact .inl ⟨rfl, rfl⟩
      | name h => exact .inr (.inl ⟨rfl, h⟩)
    · exact .inr (.inr ⟨ns, hb, m, h, hm⟩)
  · rintro (⟨rfl, rfl⟩ | ⟨rfl, h⟩ | ⟨ns, hb, m, h, hm⟩)
    · exact .inl .arguments
    · exact .inl (.name h)
    · exact .inr ⟨m, ⟨ns, hb, h⟩, hm⟩

/-- Joining texts neither hides nor brings an invocation. -/
theorem among_consNode? : role.Among i (consNode? o ns) ↔ (∃ n ∈ o, role.Inside i n) ∨ role.Among i ns := by
  cases o with
  | none => simp [consNode?]
  | some n =>
    simp only [consNode?, Option.mem_def, Option.some.injEq, exists_eq_left']
    rw [consNode.eq_def]
    split
    · simp only [among_cons, inside_text, false_or]
    · exact among_cons

end Role

/-- One of the symbols has the invocation. -/
def Symbol.AnyMentions (role : Role) (i : Invocation) (ss : List Symbol) : Prop :=
  ∃ s ∈ ss, s.Mentions role i

namespace Symbol
variable {ss ss' : List Symbol}

@[simp] theorem not_mentions_text : ¬ Mentions (.text w) role i := nofun

@[simp] theorem not_mentions_comment : ¬ Mentions .comment role i := nofun

@[simp] theorem not_mentions_openDefinition : ¬ Mentions (.openDefinition s) role i := nofun

@[simp] theorem not_mentions_closing : ¬ Mentions (.closing w) role i := nofun

@[simp] theorem mentions_value_iff :
    Mentions (.value j escaped) role i ↔ role = .value ∧ i = j := by
  constructor
  · rintro ⟨⟩
    exact ⟨rfl, rfl⟩
  · rintro ⟨rfl, rfl⟩
    exact .value

@[simp] theorem mentions_openBlock_iff :
    Mentions (.openBlock w j negated) role i ↔ role = .block ∧ i = j := by
  constructor
  · rintro ⟨⟩
    exact ⟨rfl, rfl⟩
  · rintro ⟨rfl, rfl⟩
    exact .block

@[simp] theorem mentions_alternative_iff :
    Mentions (.alternative condition) role i ↔ role = .condition ∧ condition = some i := by
  constructor
  · rintro ⟨⟩
    exact ⟨rfl, rfl⟩
  · rintro ⟨rfl, rfl⟩
    exact .condition

@[simp] theorem mentions_partialTag_iff :
    Mentions (.partialTag name j) role i ↔
      (role = .arguments ∧ i = j) ∨ (role = .name ∧ name = .computed i) := by
  constructor
  · rintro ⟨⟩
    · exact .inl ⟨rfl, rfl⟩
    · exact .inr ⟨rfl, rfl⟩
  · rintro (⟨rfl, rfl⟩ | ⟨rfl, rfl⟩)
    · exact .arguments
    · exact .name

@[simp] theorem mentions_openPartial_iff :
    Mentions (.openPartial name j) role i ↔
      (role = .arguments ∧ i = j) ∨ (role = .name ∧ name = .computed i) := by
  constructor
  · rintro ⟨⟩
    · exact .inl ⟨rfl, rfl⟩
    · exact .inr ⟨rfl, rfl⟩
  · rintro (⟨rfl, rfl⟩ | ⟨rfl, rfl⟩)
    · exact .openArguments
    · exact .openName

@[simp] theorem anyMentions_nil : ¬ AnyMentions role i [] := by
  rintro ⟨s, h, -⟩
  cases h

@[simp] theorem anyMentions_cons {s : Symbol} :
    AnyMentions role i (s :: ss) ↔ s.Mentions role i ∨ AnyMentions role i ss := by
  simp only [AnyMentions, List.exists_mem_cons_iff]

@[simp] theorem anyMentions_append :
    AnyMentions role i (ss ++ ss') ↔ AnyMentions role i ss ∨ AnyMentions role i ss' := by
  simp only [AnyMentions, List.mem_append, or_and_right, exists_or]

end Symbol

namespace Role
open TextTemplate.Symbol

/-- The invocation stands in a partial that is defined. -/
def InDefinition (role : Role) (i : Invocation) (definitions : List (String × List Tree)) : Prop :=
  ∃ d ∈ definitions, role.Among i (forestNodes d.2)

@[simp] theorem inDefinition_nil : ¬ role.InDefinition i [] := by
  rintro ⟨d, h, -⟩
  cases h

@[simp] theorem inDefinition_append {ds ds' : List (String × List Tree)} :
    role.InDefinition i (ds ++ ds') ↔ role.InDefinition i ds ∨ role.InDefinition i ds' := by
  simp only [InDefinition, List.mem_append, or_and_right, exists_or]

theorem inDefinition_singleton {body : List Tree} :
    role.InDefinition i [(s, body)] ↔ role.Among i (forestNodes body) := by
  simp [InDefinition]

/-! The four proofs follow the mutual recursion of `yield`. -/

mutual

/-- The invocations of a tree, those in its definitions included, are those of its symbols. -/
theorem anyMentions_yield : ∀ t : Tree,
    ((∃ n ∈ t.node?, role.Inside i n) ∨ role.InDefinition i t.definitions) ↔
      AnyMentions role i t.yield
  | .text w => by
    have hn : ¬ ∃ n ∈ (Tree.text w).node?, role.Inside i n := by
      rw [Tree.node?]
      split <;> simp [inside_text]
    rw [or_iff_right hn]
    simp [Tree.yield, Tree.definitions]
  | .comment => by simp [Tree.yield, Tree.node?, Tree.definitions]
  | .value j escaped => by simp [Tree.yield, Tree.node?, Tree.definitions, inside_value]
  | .partialTag _ j => by simp [Tree.yield, Tree.node?, Tree.definitions, inside_partialTag]
  | .block _ j negated branches final => by
    simp only [Tree.node?, Tree.definitions, Tree.yield, anyMentions_cons, anyMentions_append,
      ← anyMentions_branches branches, ← anyMentions_final final, Option.mem_def,
      Option.some.injEq, exists_eq_left', inside_block, List.mem_append, or_and_right, exists_or,
      inDefinition_append, mentions_openBlock_iff, not_mentions_closing, anyMentions_nil, or_false,
      or_assoc]
    grind
  | .partialBlock _ j body => by
    simp [Tree.node?, Tree.definitions, Tree.yield, ← anyMentions_forest body, inside_partialTag,
      or_assoc]
  | .definition _ body => by
    simp only [Tree.node?, Tree.definitions, Tree.yield, anyMentions_cons, anyMentions_append,
      ← anyMentions_forest body, inDefinition_append, inDefinition_singleton]
    simp [or_comm]

theorem anyMentions_branches : ∀ b : Branches,
    (role.Among i b.bodyNodes ∨ (∃ a ∈ b.alternates, role.InBranch i a) ∨
      role.InDefinition i b.definitions) ↔ AnyMentions role i b.yield
  | .body trees => by
    simp [Branches.bodyNodes, Branches.alternates, Branches.definitions, Branches.yield,
      ← anyMentions_forest trees]
  | .branch before j trees => by
    simp only [Branches.bodyNodes, Branches.alternates, Branches.definitions, Branches.yield,
      anyMentions_append, anyMentions_cons, ← anyMentions_branches before,
      ← anyMentions_forest trees, List.mem_append, List.mem_singleton, or_and_right, exists_or,
      exists_eq_left, InBranch, inDefinition_append, mentions_alternative_iff, Option.some.injEq,
      or_assoc]
    grind

theorem anyMentions_final : ∀ final : Option (List Tree),
    ((∃ a ∈ finalAlternates final, role.InBranch i a) ∨
      role.InDefinition i (finalDefinitions final)) ↔ AnyMentions role i (finalYield final)
  | none => by simp [finalAlternates, finalDefinitions, finalYield]
  | some trees => by
    simp [finalAlternates, finalDefinitions, finalYield, InBranch, ← anyMentions_forest trees]

theorem anyMentions_forest : ∀ ts : List Tree,
    (role.Among i (forestNodes ts) ∨ role.InDefinition i (forestDefinitions ts)) ↔
      AnyMentions role i (forestYield ts)
  | [] => by simp [forestNodes, forestDefinitions, forestYield, among_nil]
  | t :: ts => by
    rw [forestYield, anyMentions_append, ← anyMentions_yield t, ← anyMentions_forest ts, forestNodes,
      among_consNode?, forestDefinitions, inDefinition_append]
    exact or_or_or_comm

end

end Role

theorem Template.mentions_iff {T : Template} :
    T.Mentions role i ↔
      role.Among i T.nodes ∨ ∃ d ∈ T.partials, d.2.Mentions role i := by
  constructor
  · rintro ⟨n, h, hn⟩
    cases h with
    | nodes h => exact .inl ⟨n, h, hn⟩
    | partials h hp => exact .inr ⟨_, h, n, hp, hn⟩
  · rintro (⟨n, h, hn⟩ | ⟨⟨name, p⟩, h, n, hp, hn⟩)
    · exact ⟨n, .nodes h, hn⟩
    · exact ⟨n, .partials h hp, hn⟩

/-- The invocations in the template of a forest are those of its symbols. -/
theorem Template.mentions_ofForest :
    (Template.ofForest ts).Mentions role i ↔ Symbol.AnyMentions role i (forestYield ts) := by
  have hp : ∀ ns, (⟨ns, []⟩ : Template).Mentions role i ↔ role.Among i ns := by
    intro ns
    rw [mentions_iff]
    simp
  rw [mentions_iff, ← Role.anyMentions_forest]
  simp [ofForest, definedPartials, Role.InDefinition, hp]

open Zipper

theorem forall₂_symbol {tags : List Tag} {symbols : List Symbol}
    (h : tags.mapM Tag.symbol = .ok symbols) :
    List.Forall₂ (fun t s => t.symbol = .ok s) tags symbols := by
  induction tags generalizing symbols with
  | nil =>
    cases h
    exact .nil
  | cons t tags ih =>
    rw [List.mapM_cons] at h
    obtain ⟨s, hs, h⟩ := bind_eq_ok h
    obtain ⟨ss, hss, h⟩ := bind_eq_ok h
    cases h
    exact .cons hs (ih hss)

theorem anyMentions_interleave {tags : List Tag} {symbols : List Symbol}
    (h : tags.length = symbols.length) :
    Symbol.AnyMentions role i (interleave tags symbols) ↔ Symbol.AnyMentions role i symbols := by
  induction tags generalizing symbols with
  | nil =>
    cases symbols with
    | nil => rfl
    | cons s symbols => cases h
  | cons t tags ih =>
    cases symbols with
    | nil => cases h
    | cons s symbols =>
      have hcons : interleave (t :: tags) (s :: symbols) =
          .text t.before :: s :: interleave tags symbols := rfl
      rw [hcons, Symbol.anyMentions_cons, Symbol.anyMentions_cons, Symbol.anyMentions_cons,
        ih (Nat.succ.inj h)]
      simp

/-- What a template mentions stands in one of its tags. -/
theorem Template.exists_symbols {d : Delimiters} {source : String} {T : Template}
    (h : Template.compile d source = .ok T) :
    ∃ symbols, List.Forall₂ (fun t s => t.symbol = .ok s) (Tag.scan d source.toList).tags symbols ∧
      ∀ role i, T.Mentions role i ↔ Symbol.AnyMentions role i symbols := by
  obtain ⟨rest, symbols, forest, -, hs, hf, rfl⟩ := (Template.compile_eq_ok_iff d source T).1 h
  have hs := forall₂_symbol hs
  refine ⟨symbols, hs, fun role i => ?_⟩
  rw [Template.mentions_ofForest, hf, Symbol.anyMentions_append, anyMentions_interleave hs.length_eq]
  simp

end
end TextTemplate
