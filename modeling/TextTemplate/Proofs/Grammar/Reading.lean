import TextTemplate.Proofs.Grammar.Compile

/-! Reading a template in document order gives back the symbols of its source, each once and in
source order. -/

namespace TextTemplate

mutual

/-- The symbols that a node stands for, in document order. -/
def readNode : Node → List Symbol
  | .text s => [.text s.toList]
  | .value i escaped => [.value i escaped]
  | .block ⟨name, i, negated, body, alternates⟩ =>
    .openBlock name.toList i negated ::
      (readNodes body ++ (readAlternates alternates ++ [.closing name.toList]))
  | .partialTag ⟨name, i, none⟩ => [.partialTag name i]
  | .partialTag ⟨name, i, some body⟩ =>
    .openPartial name i :: (readNodes body ++ [.closing name.closeName])

def readAlternates : List Alternate → List Symbol
  | [] => []
  | ⟨condition, body⟩ :: rest => .alternative condition :: (readNodes body ++ readAlternates rest)

def readNodes : List Node → List Symbol
  | [] => []
  | n :: ns => readNode n ++ readNodes ns

end

/-- Puts a symbol in front of others; texts next to each other become one, and an empty text
none. -/
def consSymbol : Symbol → List Symbol → List Symbol
  | .text [], ss => ss
  | .text s, .text s' :: ss => .text (s ++ s') :: ss
  | s, ss => s :: ss

def joinTexts (ss : List Symbol) : List Symbol := ss.foldr consSymbol []

/-- Symbols in the order of their source, sorted by the definition that they stand in. An open tag
that defines a partial is listed with the name. -/
structure Sorter where
  opened : List (Option String)
  current : List Symbol
  around : List (List Symbol)
  defined : List (String × List Symbol)

namespace Sorter

def empty : Sorter := ⟨[], [], [], []⟩

def put (s : Symbol) (r : Sorter) : Sorter := { r with current := r.current ++ [s] }

/-- The tags of a definition are not part of any template, and comments neither. -/
def step (r : Sorter) : Symbol → Sorter
  | .comment => r
  | .openBlock name i negated =>
    { r.put (.openBlock name i negated) with opened := none :: r.opened }
  | .openPartial name i => { r.put (.openPartial name i) with opened := none :: r.opened }
  | .openDefinition name =>
    { r with opened := some name :: r.opened, current := [], around := r.current :: r.around }
  | .closing name =>
    match r.opened, r.around with
    | none :: opened, _ => { r.put (.closing name) with opened }
    | some defined :: opened, current :: around =>
      ⟨opened, current, around, r.defined ++ [(defined, r.current)]⟩
    | _, _ => r
  | s => r.put s

end Sorter

def sortSymbols (ss : List Symbol) : Sorter := ss.foldl Sorter.step .empty

mutual

/-- The symbols of a tree that stand outside definitions. -/
def Tree.outer : Tree → List Symbol
  | .text s => [.text s]
  | .comment => []
  | .value i escaped => [.value i escaped]
  | .partialTag name i => [.partialTag name i]
  | .block name i negated branches final =>
    .openBlock name i negated :: (branches.outer ++ (finalOuter final ++ [.closing name]))
  | .partialBlock name i body =>
    .openPartial name i :: (forestOuter body ++ [.closing name.closeName])
  | .definition _ _ => []

def Branches.outer : Branches → List Symbol
  | .body trees => forestOuter trees
  | .branch before condition trees =>
    before.outer ++ (.alternative (some condition) :: forestOuter trees)

def finalOuter : Option (List Tree) → List Symbol
  | none => []
  | some trees => .alternative none :: forestOuter trees

def forestOuter : List Tree → List Symbol
  | [] => []
  | t :: ts => t.outer ++ forestOuter ts

end

section sorting

/-- Sorts symbols and definitions at the place that is reached. -/
def Sorter.add (r : Sorter) (ss : List Symbol) (definitions : List (String × List Tree)) : Sorter :=
  { r with
    current := r.current ++ ss
    defined := r.defined ++ definitions.map fun (name, body) => (name, forestOuter body) }

variable {r : Sorter}

theorem Sorter.add_add (ss ss' : List Symbol) (ds ds' : List (String × List Tree)) :
    (r.add ss ds).add ss' ds' = r.add (ss ++ ss') (ds ++ ds') := by
  simp [add]

theorem Sorter.add_nil : r.add [] [] = r := by
  simp [add]

mutual

theorem foldl_step_yield : ∀ (t : Tree) (r : Sorter),
    t.yield.foldl Sorter.step r = r.add t.outer t.definitions
  | .text s, r => by
    simp [Tree.yield, Sorter.step, Sorter.put, Sorter.add, Tree.outer, Tree.definitions]
  | .comment, r => Sorter.add_nil.symm
  | .value i escaped, r => by
    simp [Tree.yield, Sorter.step, Sorter.put, Sorter.add, Tree.outer, Tree.definitions]
  | .partialTag name i, r => by
    simp [Tree.yield, Sorter.step, Sorter.put, Sorter.add, Tree.outer, Tree.definitions]
  | .block name i negated branches final, r => by
    rw [Tree.yield, List.foldl_cons, List.foldl_append, foldl_step_branches, List.foldl_append,
      foldl_step_final, Sorter.add_add]
    simp [Sorter.step, Sorter.put, Sorter.add, Tree.outer, Tree.definitions]
  | .partialBlock name i body, r => by
    rw [Tree.yield, List.foldl_cons, List.foldl_append, foldl_step_forest]
    simp [Sorter.step, Sorter.put, Sorter.add, Tree.outer, Tree.definitions]
  | .definition name body, r => by
    rw [Tree.yield, List.foldl_cons, List.foldl_append, foldl_step_forest]
    simp [Sorter.step, Sorter.add, Tree.outer, Tree.definitions]

theorem foldl_step_branches : ∀ (b : Branches) (r : Sorter),
    b.yield.foldl Sorter.step r = r.add b.outer b.definitions
  | .body trees, r => foldl_step_forest trees r
  | .branch before condition trees, r => by
    rw [Branches.yield, List.foldl_append, foldl_step_branches before, List.foldl_cons,
      foldl_step_forest]
    simp [Sorter.step, Sorter.put, Sorter.add, Branches.outer, Branches.definitions]

theorem foldl_step_final : ∀ (final : Option (List Tree)) (r : Sorter),
    (finalYield final).foldl Sorter.step r = r.add (finalOuter final) (finalDefinitions final)
  | none, r => Sorter.add_nil.symm
  | some trees, r => by
    rw [finalYield, List.foldl_cons, foldl_step_forest]
    simp [Sorter.step, Sorter.put, Sorter.add, finalOuter, finalDefinitions]

theorem foldl_step_forest : ∀ (ts : List Tree) (r : Sorter),
    (forestYield ts).foldl Sorter.step r = r.add (forestOuter ts) (forestDefinitions ts)
  | [], r => Sorter.add_nil.symm
  | t :: ts, r => by
    rw [forestYield, List.foldl_append, foldl_step_yield t r, foldl_step_forest ts, Sorter.add_add]
    rfl

end

end sorting

section reading
variable {s a : Symbol} {ss ss' rest : List Symbol}

theorem consSymbol_of_not_text (hs : ∀ w, s ≠ .text w) : consSymbol s ss = s :: ss := by
  cases s with
  | text w => exact absurd rfl (hs w)
  | _ => rfl

theorem consSymbol_append_cons (hs : ∀ w, s ≠ .text w) :
    consSymbol a (ss ++ s :: rest) = consSymbol a ss ++ s :: rest := by
  cases a with
  | text w =>
    rcases w with _ | ⟨c, w⟩
    · rfl
    · rcases ss with _ | ⟨a', ss⟩
      · cases s with
        | text w' => exact absurd rfl (hs w')
        | _ => rfl
      · cases a' <;> rfl
  | _ => rfl

/-- A symbol that is no text keeps the texts on its two sides apart. -/
theorem foldr_consSymbol_cons (hs : ∀ w, s ≠ .text w) :
    ss.foldr consSymbol (s :: rest) = joinTexts ss ++ s :: rest := by
  induction ss with
  | nil => rfl
  | cons a ss ih =>
    rw [List.foldr_cons, ih, consSymbol_append_cons hs]
    rfl

theorem joinTexts_append_cons (hs : ∀ w, s ≠ .text w) :
    joinTexts (ss ++ s :: ss') = joinTexts ss ++ s :: joinTexts ss' := by
  rw [joinTexts, List.foldr_append, List.foldr_cons, consSymbol_of_not_text hs,
    foldr_consSymbol_cons hs, ← joinTexts]

theorem readAlternates_append {as as' : List Alternate} :
    readAlternates (as ++ as') = readAlternates as ++ readAlternates as' := by
  induction as with
  | nil => rfl
  | cons a as ih =>
    obtain ⟨condition, body⟩ := a
    simp only [List.cons_append, readAlternates, ih, List.append_assoc]

theorem readNodes_consNode_text {w : List Char} (hw : w ≠ []) (ns : List Node) :
    readNodes (consNode (.text (String.ofList w)) ns) = consSymbol (.text w) (readNodes ns) := by
  obtain ⟨c, w, rfl⟩ := List.exists_cons_of_ne_nil hw
  rcases ns with _ | ⟨n, ns⟩
  · simp [consNode, readNodes, readNode, consSymbol]
  · rcases n with w' | _ | ⟨_, _, _, _, _⟩ | ⟨_, _, _ | _⟩ <;>
      simp [consNode, readNodes, readNode, consSymbol]

/-- What a tree shows in front of `ns` is read as its symbols, in front of those of `ns`. -/
def ReadsInFront (t : Tree) : Prop :=
  ∀ ns, readNodes (consNode? t.node? ns) = t.outer.foldr consSymbol (readNodes ns)

theorem readsInFront_text (w : List Char) : ReadsInFront (.text w) := by
  intro ns
  by_cases hw : w = []
  · subst hw
    rfl
  · simp only [Tree.node?, hw, if_false, Tree.outer, List.foldr_cons, List.foldr_nil]
    exact readNodes_consNode_text hw ns

/-- The same of a tree with something between an opening and a closing symbol. -/
theorem foldr_enclosed {o c : Symbol} (ho : ∀ w, o ≠ .text w) (hc : ∀ w, c ≠ .text w) :
    (o :: (ss ++ [c])).foldr consSymbol rest = o :: (joinTexts ss ++ c :: rest) := by
  rw [List.foldr_cons, consSymbol_of_not_text ho, List.foldr_append, List.foldr_cons,
    List.foldr_nil, consSymbol_of_not_text hc, foldr_consSymbol_cons hc]

mutual

theorem readsInFront : ∀ t : Tree, ReadsInFront t
  | .text w => readsInFront_text w
  | .comment => fun _ => rfl
  | .value _ _ => fun _ => rfl
  | .partialTag _ _ => fun _ => rfl
  | .block name i negated branches none => by
    intro ns
    have ho : ∀ w, Symbol.openBlock name i negated ≠ .text w := nofun
    have hc : ∀ w, Symbol.closing name ≠ .text w := nofun
    rw [Tree.outer, finalOuter, List.nil_append, foldr_enclosed ho hc, ← read_branches branches]
    simp [Tree.node?, finalAlternates, consNode?, consNode, readNodes, readNode]
  | .block name i negated branches (some trees) => by
    intro ns
    have ho : ∀ w, Symbol.openBlock name i negated ≠ .text w := nofun
    have ha : ∀ w, Symbol.alternative none ≠ .text w := nofun
    have hc : ∀ w, Symbol.closing name ≠ .text w := nofun
    rw [Tree.outer, finalOuter, ← List.append_assoc, foldr_enclosed ho hc,
      joinTexts_append_cons ha, ← read_branches branches, ← read_forest trees]
    simp [Tree.node?, finalAlternates, consNode?, consNode, readNodes, readNode,
      readAlternates_append, readAlternates]
  | .partialBlock name i body => by
    intro ns
    have ho : ∀ w, Symbol.openPartial name i ≠ .text w := nofun
    have hc : ∀ w, Symbol.closing name.closeName ≠ .text w := nofun
    rw [Tree.outer, foldr_enclosed ho hc, ← read_forest body]
    simp [Tree.node?, consNode?, consNode, readNodes, readNode]
  | .definition _ _ => fun _ => rfl

theorem read_branches : ∀ b : Branches,
    readNodes b.bodyNodes ++ readAlternates b.alternates = joinTexts b.outer
  | .body trees => by
    rw [Branches.bodyNodes, Branches.alternates, Branches.outer, ← read_forest trees]
    exact List.append_nil _
  | .branch before condition trees => by
    have ha : ∀ w, Symbol.alternative (some condition) ≠ .text w := nofun
    rw [Branches.bodyNodes, Branches.alternates, Branches.outer, readAlternates_append,
      ← List.append_assoc, read_branches before, joinTexts_append_cons ha, ← read_forest trees]
    simp only [readAlternates, List.append_nil]

theorem read_forest : ∀ ts : List Tree, readNodes (forestNodes ts) = joinTexts (forestOuter ts)
  | [] => rfl
  | t :: ts => by
    rw [forestOuter, joinTexts, List.foldr_append, ← joinTexts, ← read_forest ts, ← readsInFront t,
      forestNodes]

end

end reading

namespace Template

/-- In document order, the nodes of a template are the symbols outside definitions, and those of
each partial the symbols of its definition, with the texts joined that stand next to each other. -/
structure ReadsAs (T : Template) (ss : List Symbol) : Prop where
  nodes : readNodes T.nodes = joinTexts (sortSymbols ss).current
  partials : T.partials.map (fun (name, t) => (name, readNodes t.nodes)) =
    (sortSymbols ss).defined.map fun (name, ss) => (name, joinTexts ss)

theorem readsAs_ofForest (ts : List Tree) : (ofForest ts).ReadsAs (forestYield ts) := by
  have hs : sortSymbols (forestYield ts) =
      Sorter.empty.add (forestOuter ts) (forestDefinitions ts) := foldl_step_forest ts .empty
  constructor
  · rw [hs]
    exact read_forest ts
  · rw [hs]
    simp [ofForest, definedPartials, Sorter.add, Sorter.empty, read_forest]

open Zipper in
/-- A source compiles exactly when its tags can all be found, their arguments are in order, and the
grammar derives them. The template is that of the derivation, and reading it gives the source
back. -/
theorem compile_iff_derives (d : Delimiters) (source : String) (T : Template) :
    compile d source = .ok T ↔
      ∃ rest symbols forest,
        (Tag.scan d source.toList).rest = .ok rest ∧
        (Tag.scan d source.toList).tags.mapM Tag.symbol = .ok symbols ∧
        forestYield forest = interleave (Tag.scan d source.toList).tags symbols ++ [.text rest] ∧
        T = ofForest forest ∧
        T.ReadsAs (interleave (Tag.scan d source.toList).tags symbols ++ [.text rest]) := by
  rw [compile_eq_ok_iff]
  constructor
  · rintro ⟨rest, symbols, forest, hrest, hsym, hf, rfl⟩
    refine ⟨rest, symbols, forest, hrest, hsym, hf, rfl, ?_⟩
    rw [← hf]
    exact readsAs_ofForest forest
  · rintro ⟨rest, symbols, forest, hrest, hsym, hf, hT, -⟩
    exact ⟨rest, symbols, forest, hrest, hsym, hf, hT⟩

end Template
end TextTemplate
