import TextTemplate.Proofs.Grammar.Tree

/-! A machine that reads symbols one by one into partial derivations: it accepts what the grammar
derives, and nothing else. -/

namespace TextTemplate

variable {ts us : List Tree} {t : Tree}

theorem forestYield_append : forestYield (ts ++ us) = forestYield ts ++ forestYield us := by
  induction ts with
  | nil => rfl
  | cons t ts ih =>
    simp only [List.cons_append, forestYield, ih, List.append_assoc]

theorem forestDefinitions_append :
    forestDefinitions (ts ++ us) = forestDefinitions ts ++ forestDefinitions us := by
  induction ts with
  | nil => rfl
  | cons t ts ih =>
    simp only [List.cons_append, forestDefinitions, ih, List.append_assoc]

namespace Branches
variable (b : Branches)

/-- Adds trees to the last branch. -/
def extend (ts : List Tree) : Branches → Branches
  | body trees => body (trees ++ ts)
  | branch before condition trees => branch before condition (trees ++ ts)

theorem extend_nil : b.extend [] = b := by
  cases b <;> simp only [extend, List.append_nil]

theorem extend_extend : (b.extend ts).extend us = b.extend (ts ++ us) := by
  cases b <;> simp only [extend, List.append_assoc]

theorem yield_extend : (b.extend ts).yield = b.yield ++ forestYield ts := by
  cases b <;> simp only [extend, yield, forestYield_append, List.append_assoc, List.cons_append]

theorem definitions_extend : (b.extend ts).definitions = b.definitions ++ forestDefinitions ts := by
  cases b <;> simp only [extend, definitions, forestDefinitions_append, List.append_assoc]

end Branches

/-- A tree whose closing tag is not read yet. -/
inductive OpenTree
  | block (name : List Char) (invocation : Invocation) (negated : Bool) (branches : Branches)
      (final : Option (List Tree))
  | partialBlock (name : PartialName) (invocation : Invocation) (body : List Tree)
  | definition (name : String) (body : List Tree)

namespace OpenTree
variable {o o' : OpenTree} {condition : Option Invocation}

def closeName : OpenTree → List Char
  | block name _ _ _ _ => name
  | partialBlock name _ _ => name.closeName
  | definition _ _ => definitionWord

def close : OpenTree → Tree
  | block name i negated branches final => .block name i negated branches final
  | partialBlock name i body => .partialBlock name i body
  | definition name body => .definition name body

/-- The symbols of the tree but for the closing one. -/
def yield : OpenTree → List Symbol
  | block name i negated branches final =>
    .openBlock name i negated :: (branches.yield ++ finalYield final)
  | partialBlock name i body => .openPartial name i :: forestYield body
  | definition name body => .openDefinition name :: forestYield body

/-- The definitions that are closed inside. -/
def definitions : OpenTree → List (String × List Tree)
  | block _ _ _ branches final => branches.definitions ++ finalDefinitions final
  | partialBlock _ _ body => forestDefinitions body
  | definition _ body => forestDefinitions body

/-- Adds trees at the open end. -/
def extend (ts : List Tree) : OpenTree → OpenTree
  | block name i negated branches none => block name i negated (branches.extend ts) none
  | block name i negated branches (some trees) => block name i negated branches (some (trees ++ ts))
  | partialBlock name i body => partialBlock name i (body ++ ts)
  | definition name body => definition name (body ++ ts)

/-- Begins another branch. -/
def branch? (condition : Option Invocation) : OpenTree → Option OpenTree
  | block name i negated branches none =>
    match condition with
    | none => some (block name i negated branches (some []))
    | some c => some (block name i negated (.branch branches c []) none)
  | _ => none

theorem extend_nil : o.extend [] = o := by
  cases o with
  | block name i negated branches final =>
    cases final <;> simp only [extend, Branches.extend_nil, List.append_nil]
  | partialBlock | definition => simp only [extend, List.append_nil]

theorem extend_extend : (o.extend ts).extend us = o.extend (ts ++ us) := by
  cases o with
  | block name i negated branches final =>
    cases final <;> simp only [extend, Branches.extend_extend, List.append_assoc]
  | partialBlock | definition => simp only [extend, List.append_assoc]

theorem yield_close : o.close.yield = o.yield ++ [.closing o.closeName] := by
  cases o <;> simp only [close, yield, closeName, Tree.yield, List.cons_append, List.append_assoc]

theorem yield_extend : (o.extend ts).yield = o.yield ++ forestYield ts := by
  cases o with
  | block name i negated branches final =>
    cases final <;>
      simp only [extend, yield, finalYield, Branches.yield_extend, forestYield_append,
        List.append_nil, List.cons_append, List.append_assoc]
  | partialBlock | definition =>
    simp only [extend, yield, forestYield_append, List.cons_append]

theorem yield_branch? (h : o.branch? condition = some o') :
    o'.yield = o.yield ++ [.alternative condition] := by
  cases o with
  | partialBlock => cases h
  | definition => cases h
  | block name i negated branches final =>
    cases final with
    | some trees => cases h
    | none =>
      cases condition <;> cases h <;>
        simp only [yield, finalYield, Branches.yield, forestYield, List.append_nil,
          List.cons_append]

theorem definitions_extend : (o.extend ts).definitions = o.definitions ++ forestDefinitions ts := by
  cases o with
  | block name i negated branches final =>
    cases final <;>
      simp only [extend, definitions, finalDefinitions, Branches.definitions_extend,
        forestDefinitions_append, List.append_nil, List.append_assoc]
  | partialBlock | definition => simp only [extend, definitions, forestDefinitions_append]

theorem definitions_branch? (h : o.branch? condition = some o') :
    o'.definitions = o.definitions := by
  cases o with
  | partialBlock => cases h
  | definition => cases h
  | block name i negated branches final =>
    cases final with
    | some trees => cases h
    | none =>
      cases condition <;> cases h <;>
        simp only [definitions, finalDefinitions, Branches.definitions, forestDefinitions,
          List.append_nil]

end OpenTree

/-- What has been read so far: the open trees from the innermost out, and the trees outside. -/
structure Zipper where
  opened : List OpenTree
  trees : List Tree

namespace Zipper
variable {z z' : Zipper} {o : OpenTree} {s : Symbol} {ss : List Symbol}

def empty : Zipper := ⟨[], []⟩

/-- Adds trees at the open end. -/
def extend (ts : List Tree) : Zipper → Zipper
  | ⟨[], trees⟩ => ⟨[], trees ++ ts⟩
  | ⟨o :: os, trees⟩ => ⟨o.extend ts :: os, trees⟩

def push (o : OpenTree) (z : Zipper) : Zipper := { z with opened := o :: z.opened }

/-- Reads a symbol, if it may stand here. -/
def absorb (z : Zipper) : Symbol → Option Zipper
  | .text s => some (z.extend [.text s])
  | .comment => some (z.extend [.comment])
  | .value i escaped => some (z.extend [.value i escaped])
  | .partialTag name i => some (z.extend [.partialTag name i])
  | .openBlock name i negated => some (z.push (.block name i negated (.body []) none))
  | .openPartial name i => some (z.push (.partialBlock name i []))
  | .openDefinition name => some (z.push (.definition name []))
  | .alternative condition =>
    match z.opened with
    | [] => none
    | o :: os => (o.branch? condition).map fun o => ⟨o :: os, z.trees⟩
  | .closing name =>
    match z.opened with
    | [] => none
    | o :: os => if o.closeName = name then some (extend [o.close] ⟨os, z.trees⟩) else none

def run (z : Zipper) (ss : List Symbol) : Option Zipper := ss.foldlM absorb z

/-- The symbols read so far. -/
def yield (z : Zipper) : List Symbol :=
  forestYield z.trees ++ z.opened.reverse.flatMap OpenTree.yield

theorem extend_nil : z.extend [] = z := by
  obtain ⟨opened, trees⟩ := z
  cases opened with
  | nil => simp only [extend, List.append_nil]
  | cons o os => simp only [extend, OpenTree.extend_nil]

theorem extend_extend : (z.extend ts).extend us = z.extend (ts ++ us) := by
  obtain ⟨opened, trees⟩ := z
  cases opened with
  | nil => simp only [extend, List.append_assoc]
  | cons o os => simp only [extend, OpenTree.extend_extend]

theorem yield_push : (z.push o).yield = z.yield ++ o.yield := by
  simp [push, yield]

theorem yield_extend : (z.extend ts).yield = z.yield ++ forestYield ts := by
  obtain ⟨opened, trees⟩ := z
  cases opened with
  | nil => simp [extend, yield, forestYield_append]
  | cons o os => simp [extend, yield, OpenTree.yield_extend]

theorem yield_absorb (h : z.absorb s = some z') : z'.yield = z.yield ++ [s] := by
  cases s with
  | text | comment | value | partialTag =>
    cases h
    exact yield_extend
  | openBlock | openPartial | openDefinition =>
    cases h
    exact yield_push
  | alternative condition =>
    obtain ⟨opened, trees⟩ := z
    cases opened with
    | nil => cases h
    | cons o os =>
      obtain ⟨o', ho, rfl⟩ := Option.map_eq_some_iff.1 h
      simp [yield, OpenTree.yield_branch? ho]
  | closing name =>
    obtain ⟨opened, trees⟩ := z
    cases opened with
    | nil => cases h
    | cons o os =>
      simp only [absorb] at h
      split at h
      · cases h
        rename_i hname
        rw [yield_extend, forestYield, OpenTree.yield_close, hname]
        simp [yield, forestYield]
      · cases h

theorem run_nil : z.run [] = some z := rfl

theorem run_cons : z.run (s :: ss) = (z.absorb s).bind fun z => z.run ss := rfl

theorem run_append {ss' : List Symbol} :
    z.run (ss ++ ss') = (z.run ss).bind fun z => z.run ss' := by
  rw [run, List.foldlM_append]
  rfl

/-- What is read is what the partial derivation derives. -/
theorem yield_run (h : z.run ss = some z') : z'.yield = z.yield ++ ss := by
  induction ss generalizing z with
  | nil =>
    cases h
    rw [List.append_nil]
  | cons s ss ih =>
    rw [run_cons] at h
    obtain ⟨z'', hz, hr⟩ := Option.bind_eq_some_iff.1 h
    rw [ih hr, yield_absorb hz, List.append_assoc]
    rfl

theorem run_closing : (z.push o).run [.closing o.closeName] = some (z.extend [o.close]) := by
  simp [run_cons, run_nil, absorb, push]

mutual

/-- The symbols of a tree are read as that tree. -/
theorem run_yield : ∀ (t : Tree) (z : Zipper), z.run t.yield = some (z.extend [t])
  | .text s, z => rfl
  | .comment, z => rfl
  | .value i escaped, z => rfl
  | .partialTag name i, z => rfl
  | .block name i negated branches final, z => by
    rw [Tree.yield, run_cons, absorb, Option.bind_some, run_append, run_branches, Option.bind_some,
      run_append, run_final, Option.bind_some]
    exact run_closing
  | .partialBlock name i body, z => by
    rw [Tree.yield, run_cons, absorb, Option.bind_some, run_append, run_forest, Option.bind_some]
    exact run_closing
  | .definition name body, z => by
    rw [Tree.yield, run_cons, absorb, Option.bind_some, run_append, run_forest, Option.bind_some]
    exact run_closing

theorem run_branches : ∀ (b : Branches) (z : Zipper) {name : List Char} {i : Invocation}
    {negated : Bool}, (z.push (.block name i negated (.body []) none)).run b.yield =
      some (z.push (.block name i negated b none))
  | .body trees, z, name, i, negated => by
    rw [Branches.yield, run_forest]
    rfl
  | .branch before condition trees, z, name, i, negated => by
    rw [Branches.yield, run_append, run_branches before z, Option.bind_some, run_cons, absorb]
    simp only [push, OpenTree.branch?, Option.map_some, Option.bind_some]
    rw [run_forest]
    rfl

theorem run_final : ∀ (final : Option (List Tree)) (z : Zipper) {name : List Char} {i : Invocation}
    {negated : Bool} {b : Branches},
    (z.push (.block name i negated b none)).run (finalYield final) =
      some (z.push (.block name i negated b final))
  | none, z, name, i, negated, b => rfl
  | some trees, z, name, i, negated, b => by
    rw [finalYield, run_cons, absorb]
    simp only [push, OpenTree.branch?, Option.map_some, Option.bind_some]
    rw [run_forest]
    rfl

theorem run_forest : ∀ (ts : List Tree) (z : Zipper), z.run (forestYield ts) = some (z.extend ts)
  | [], z => by
    rw [forestYield, extend_nil]
    rfl
  | t :: ts, z => by
    rw [forestYield, run_append, run_yield t z, Option.bind_some, run_forest ts, extend_extend]
    rfl

end

/-- All symbols are read, with nothing left open, exactly when a forest derives them. -/
theorem run_eq_some_iff : empty.run ss = some ⟨[], ts⟩ ↔ forestYield ts = ss := by
  constructor
  · intro h
    have hy := yield_run h
    simpa [yield, empty, forestYield] using hy
  · rintro rfl
    exact run_forest ts empty

/-- No symbols have two derivations. -/
theorem forestYield_injective : Function.Injective forestYield := by
  intro ts us h
  have ht := run_eq_some_iff.2 h
  have hu := run_eq_some_iff.2 (rfl : forestYield us = forestYield us)
  rw [ht] at hu
  cases hu
  rfl

end Zipper
end TextTemplate
