import Mathlib.Data.List.Chain
import Mathlib.Data.List.Infix
import TextTemplate.Proofs.Grammar.BlockParams

/-! What compiles is in normal form at every depth: texts are joined, branches are in order, and
calls and partial tags have the parts that belong to them. -/

namespace TextTemplate
open Zipper

/-- A list of nodes in a tree: the list itself, or one in a branch of a block or in the body of a
partial tag, at any depth. -/
inductive NodesWithin (ms : List Node) : List Node → Prop
  | self : NodesWithin ms ms
  | body {b : Block} {ns : List Node} (h : .block b ∈ ns) (hm : NodesWithin ms b.body) :
      NodesWithin ms ns
  | alternate {b : Block} {a : Alternate} {ns : List Node} (h : .block b ∈ ns)
      (ha : a ∈ b.alternates) (hm : NodesWithin ms a.body) : NodesWithin ms ns
  | partialBody {name : PartialName} {i : Invocation} {body ns : List Node}
      (h : .partialTag ⟨name, i, some body⟩ ∈ ns) (hm : NodesWithin ms body) : NodesWithin ms ns

/-- A list of nodes in the template or in a partial that it defines. -/
inductive Template.Lists (ms : List Node) : Template → Prop
  | nodes {t : Template} (h : NodesWithin ms t.nodes) : t.Lists ms
  | partials {t p : Template} {name : String} (h : (name, p) ∈ t.partials) (hm : p.Lists ms) :
      t.Lists ms

/-- At most one of the nodes is a text. -/
def Node.Apart (m n : Node) : Prop := ¬ (m.isText = true ∧ n.isText = true)

/-- All branches but the last have a condition. -/
def Block.InOrder (b : Block) : Prop := ∀ a ∈ b.alternates.dropLast, a.condition.isSome

/-- No text is empty, no two texts stand next to each other, and the branches of blocks are in
order. -/
structure NormalNodes (ns : List Node) : Prop where
  nonempty : .text "" ∉ ns
  apart : ns.IsChain Node.Apart
  branches : ∀ b, .block b ∈ ns → b.InOrder

/-- All lists of nodes are normal; calls have a helper, and partial tags have none and at most one
argument; a partial that is defined defines none. -/
structure Template.NormalForm (T : Template) : Prop where
  lists : ∀ ns, T.Lists ns → NormalNodes ns
  calls : ∀ call, T.Calls call → call.helper.isSome
  arguments : ∀ i, T.Mentions .arguments i → i.helper = none ∧ i.params.length ≤ 1
  partials : ∀ name p, (name, p) ∈ T.partials → p.partials = []

/-- The list and those in it are normal. -/
def AllNormal (ns : List Node) : Prop := ∀ ms, NodesWithin ms ns → NormalNodes ms

/-- The node may stand in a normal list, and those in it are normal. -/
def Node.Sound : Node → Prop
  | .text s => s ≠ ""
  | .value _ _ => True
  | .block b => b.InOrder ∧ AllNormal b.body ∧ ∀ a ∈ b.alternates, AllNormal a.body
  | .partialTag ⟨_, _, body⟩ => ∀ ns ∈ body, AllNormal ns

section
variable {n : Node} {ns : List Node} {o : Option Node} {i call : Invocation} {T : Template}

theorem allNormal_iff : AllNormal ns ↔ ns.IsChain Node.Apart ∧ ∀ n ∈ ns, n.Sound := by
  constructor
  · intro h
    have hns := h ns .self
    refine ⟨hns.apart, fun n hn => ?_⟩
    cases n with
    | text s =>
      rintro rfl
      exact hns.nonempty hn
    | value i escaped => trivial
    | block b =>
      refine ⟨hns.branches b hn, fun ms hm => h ms (.body hn hm), ?_⟩
      exact fun a ha ms hm => h ms (.alternate hn ha hm)
    | partialTag tag =>
      obtain ⟨name, i, body⟩ := tag
      rintro inside rfl ms hm
      exact h ms (.partialBody hn hm)
  · rintro ⟨hc, hs⟩ ms hm
    cases hm with
    | self =>
      refine ⟨fun hn => hs _ hn rfl, hc, fun b hb => ?_⟩
      exact (hs _ hb).1
    | body hn hm => exact (hs _ hn).2.1 ms hm
    | alternate hn ha hm => exact (hs _ hn).2.2 _ ha ms hm
    | partialBody hn hm => exact hs _ hn _ rfl ms hm

theorem allNormal_nil : AllNormal [] := by
  rw [allNormal_iff]
  exact ⟨.nil, nofun⟩

/-- A node in front of a normal list: a text joins the one that it meets. -/
theorem AllNormal.consNode (hn : n.Sound) (h : AllNormal ns) : AllNormal (consNode n ns) := by
  obtain ⟨hc, hs⟩ := allNormal_iff.1 h
  rw [allNormal_iff]
  by_cases hj : n.isText = true ∧ ∃ s rest, ns = .text s :: rest
  · obtain ⟨ht, s', rest, rfl⟩ := hj
    cases n with
    | value | block | partialTag => cases ht
    | text s =>
      rw [TextTemplate.consNode]
      have hs' := hs (.text s') (List.mem_cons_self ..)
      refine ⟨?_, List.forall_mem_cons.2 ⟨?_, fun m hm => hs m (List.mem_cons_of_mem _ hm)⟩⟩
      · rw [List.isChain_cons] at hc ⊢
        exact ⟨fun m hm hb => hc.1 m hm hb, hc.2⟩
      · rw [Node.Sound]
        simp [show s ≠ "" from hn]
  · have hcons : TextTemplate.consNode n ns = n :: ns := by
      rw [consNode.eq_def]
      split
      · exact absurd ⟨rfl, _, _, rfl⟩ hj
      · rfl
    rw [hcons, List.isChain_cons]
    refine ⟨⟨fun m hm hb => hj ⟨hb.1, ?_⟩, hc⟩, List.forall_mem_cons.2 ⟨hn, hs⟩⟩
    obtain ⟨rest, rfl⟩ := List.head?_eq_some_iff.1 hm
    cases m with
    | text s => exact ⟨s, rest, rfl⟩
    | value | block | partialTag => cases hb.2

theorem AllNormal.consNode? (ho : ∀ n ∈ o, n.Sound) (h : AllNormal ns) :
    AllNormal (consNode? o ns) := by
  cases o with
  | none => exact h
  | some n => exact h.consNode (ho n rfl)

/-- The partials that the definitions define are normal. -/
def NormalDefinitions (ds : List (String × List Tree)) : Prop :=
  ∀ d ∈ ds, AllNormal (forestNodes d.2)

theorem NormalDefinitions.append {ds ds' : List (String × List Tree)} (h : NormalDefinitions ds)
    (h' : NormalDefinitions ds') : NormalDefinitions (ds ++ ds') :=
  List.forall_mem_append.2 ⟨h, h'⟩

/-! The four proofs follow the mutual recursion of `node?`. -/

mutual

theorem sound_tree : ∀ t : Tree, (∀ n ∈ t.node?, n.Sound) ∧ NormalDefinitions t.definitions
  | .text s => by
    refine ⟨?_, nofun⟩
    rw [Tree.node?]
    split
    · nofun
    · rename_i hs
      rintro _ ⟨⟩
      exact fun h => hs (String.ofList_eq_empty_iff.1 h)
  | .comment => ⟨nofun, nofun⟩
  | .value i escaped => by
    refine ⟨?_, nofun⟩
    rintro _ ⟨⟩
    trivial
  | .partialTag name i => by
    refine ⟨?_, nofun⟩
    rintro _ ⟨⟩
    nofun
  | .block name i negated branches final => by
    obtain ⟨hbody, hbranches, hd⟩ := sound_branches branches
    obtain ⟨hlast, hfinal, hd'⟩ := sound_final final
    refine ⟨?_, hd.append hd'⟩
    rintro _ ⟨⟩
    refine ⟨fun a ha => ?_, hbody, fun a ha => ?_⟩
    · -- What stands before the last branch is before the final one too.
      rcases hlast with hlast | ⟨last, hlast⟩
      · rw [hlast, List.append_nil] at ha
        exact (hbranches a (List.mem_of_mem_dropLast ha)).1
      · rw [hlast, List.dropLast_concat] at ha
        exact (hbranches a ha).1
    · rcases List.mem_append.1 ha with ha | ha
      · exact (hbranches a ha).2
      · exact hfinal a ha
  | .partialBlock name i body => by
    obtain ⟨hbody, hd⟩ := sound_forest body
    refine ⟨?_, hd⟩
    rintro _ ⟨⟩ _ ⟨⟩
    exact hbody
  | .definition name body => by
    obtain ⟨hbody, hd⟩ := sound_forest body
    refine ⟨nofun, hd.append ?_⟩
    exact List.forall_mem_singleton.2 hbody

theorem sound_branches : ∀ b : Branches, AllNormal b.bodyNodes ∧
    (∀ a ∈ b.alternates, a.condition.isSome ∧ AllNormal a.body) ∧ NormalDefinitions b.definitions
  | .body trees => by
    obtain ⟨hbody, hd⟩ := sound_forest trees
    exact ⟨hbody, nofun, hd⟩
  | .branch before condition trees => by
    obtain ⟨hbody, hbranches, hd⟩ := sound_branches before
    obtain ⟨hlast, hd'⟩ := sound_forest trees
    refine ⟨hbody, List.forall_mem_append.2 ⟨hbranches, ?_⟩, hd.append hd'⟩
    exact List.forall_mem_singleton.2 ⟨rfl, hlast⟩

theorem sound_final : ∀ final : Option (List Tree),
    (finalAlternates final = [] ∨ ∃ a, finalAlternates final = [a]) ∧
      (∀ a ∈ finalAlternates final, AllNormal a.body) ∧ NormalDefinitions (finalDefinitions final)
  | none => ⟨.inl rfl, nofun, nofun⟩
  | some trees => by
    obtain ⟨hlast, hd⟩ := sound_forest trees
    exact ⟨.inr ⟨_, rfl⟩, List.forall_mem_singleton.2 hlast, hd⟩

theorem sound_forest : ∀ ts : List Tree,
    AllNormal (forestNodes ts) ∧ NormalDefinitions (forestDefinitions ts)
  | [] => ⟨allNormal_nil, nofun⟩
  | t :: ts => by
    obtain ⟨ht, hd⟩ := sound_tree t
    obtain ⟨hts, hd'⟩ := sound_forest ts
    exact ⟨hts.consNode? ht, hd.append hd'⟩

end

theorem Template.lists_ofForest {ts : List Tree} {ms : List Node}
    (h : (Template.ofForest ts).Lists ms) : NormalNodes ms := by
  obtain ⟨hts, hd⟩ := sound_forest ts
  cases h with
  | nodes h => exact hts ms h
  | partials hp h =>
    obtain ⟨⟨name, body⟩, hmem, hp⟩ := List.mem_map.1 hp
    cases hp
    cases h with
    | nodes h => exact hd _ hmem ms h
    | partials hp _ => cases hp

theorem Invocation.isSome_helper_of_parseCall {s : List Char} (h : parseCall s = .ok call) :
    call.helper.isSome := by
  obtain ⟨j, -, hp⟩ := parseCall_eq_ok_iff.1 h
  rw [promote?] at hp
  split at hp
  · cases hp
  · obtain ⟨name, -, rfl⟩ := Option.map_eq_some_iff.1 hp
    rfl

/-- What a partial tag is about stands in it, and no helper. -/
theorem Tag.arguments_of_symbol {t : Tag} {s : Symbol} (h : t.symbol = .ok s)
    (hs : s.Mentions .arguments i) : i.helper = none ∧ i.params.length ≤ 1 := by
  cases hk : t.kind with
  | comment | quoted | closing =>
    rw [Tag.symbol, hk] at h
    cases h
    cases hs
  | definition =>
    rw [Tag.symbol, hk] at h
    obtain ⟨name, -, h⟩ := bind_eq_ok h
    cases h
    cases hs
  | escapedValue | rawValue =>
    rw [Tag.symbol, hk] at h
    obtain ⟨j, -, h⟩ := bind_eq_ok h
    by_cases ha : j.aliases = []
    · simp only [ha, ne_eq, not_true, if_false] at h
      cases h
      cases hs
    · simp only [ha, ne_eq, not_false_eq_true, if_true] at h
      cases h
  | opening | inverse =>
    rw [Tag.symbol, hk] at h
    obtain ⟨name, -, h⟩ := bind_eq_ok h
    obtain ⟨j, -, h⟩ := bind_eq_ok h
    cases h
    cases hs
  | alternative =>
    rw [Tag.symbol, hk, elseSymbol] at h
    cases hc : elseCondition t.content with
    | error e =>
      rw [hc] at h
      cases h
    | ok condition =>
      rw [hc] at h
      cases h
      cases hs
  | partialTag | partialBlock =>
    rw [Tag.symbol, hk] at h
    obtain ⟨⟨close, name, j⟩, hp, h⟩ := bind_eq_ok h
    obtain ⟨u, -, -, ha, hl, -⟩ := exists_of_partialTag hp
    cases h
    cases hs
    exact ⟨Invocation.helper_of_parseArguments ha, hl⟩

/-- A source compiles to a template in normal form. -/
theorem Template.normalForm_of_compile (d : Delimiters) (source : String) (T : Template)
    (h : Template.compile d source = .ok T) : T.NormalForm := by
  obtain ⟨_, _, forest, -, -, -, hT⟩ := (Template.compile_eq_ok_iff d source T).1 h
  obtain ⟨symbols, hsymbols, hm⟩ := Template.exists_symbols h
  constructor
  · intro ns hns
    rw [hT] at hns
    exact lists_ofForest hns
  · intro call hc
    obtain ⟨t, -, inner, -, hp⟩ := (calls_of_compile h).1 hc
    exact Invocation.isSome_helper_of_parseCall hp
  · intro i hi
    obtain ⟨s, hs, hi⟩ := (hm _ _).1 hi
    obtain ⟨t, -, ht⟩ := exists_mem_of_forall₂ hsymbols.flip hs
    exact Tag.arguments_of_symbol ht hi
  · intro name p hp
    rw [hT] at hp
    obtain ⟨definition, -, hp⟩ := List.mem_map.1 hp
    cases hp
    rfl

/-- Texts that meet where a comment and a definition stood. -/
theorem Template.normalForm_of_compile_joined :
    ∃ T, Template.compile .braces ("a\x7b\x7b!\x7d\x7db\x7b\x7b#*inline \"p\"\x7d\x7dx" ++
        "\x7b\x7b/inline\x7d\x7dc\x7b\x7b#if (f x)\x7d\x7dd\x7b\x7belse\x7d\x7df" ++
        "\x7b\x7b/if\x7d\x7d\x7b\x7b#> p (g 1)\x7d\x7dg\x7b\x7b/p\x7d\x7d") = .ok T ∧
      T.NormalForm := by
  have hcompile : (Template.compile .braces ("a\x7b\x7b!\x7d\x7db\x7b\x7b#*inline \"p\"\x7d\x7dx" ++
      "\x7b\x7b/inline\x7d\x7dc\x7b\x7b#if (f x)\x7d\x7dd\x7b\x7belse\x7d\x7df" ++
      "\x7b\x7b/if\x7d\x7d\x7b\x7b#> p (g 1)\x7d\x7dg\x7b\x7b/p\x7d\x7d")).toOption.isSome := by
    decide +kernel
  obtain ⟨T, hT⟩ := Option.isSome_iff_exists.1 hcompile
  have hT := toOption_eq_some hT
  exact ⟨T, hT, Template.normalForm_of_compile _ _ T hT⟩

end
end TextTemplate
