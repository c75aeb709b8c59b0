import Mathlib.Data.List.Forall2
import TextTemplate.Proofs.Grammar.Zipper

/-! Compiling accepts what the grammar derives, and builds the template that the derivation
means. -/

namespace TextTemplate

namespace Tag

def valueSymbol (content : List Char) (escaped : Bool) : Except TagError Symbol := do
  let i ← withinTag (Invocation.parse content)
  if i.aliases ≠ [] then throw .blockParamsOutsideBlock
  pure (.value i escaped)

def blockSymbol (content : List Char) (negated : Bool) : Except TagError Symbol := do
  let name ← firstToken content
  let i ← withinTag (Invocation.parse content)
  pure (.openBlock name.value i negated)

/-- An `else` may have a condition. -/
def elseCondition (content : List Char) : Except TagError (Option Invocation) :=
  if content = [] then .ok none else some <$> withinTag (Invocation.parse content)

def elseSymbol (content : List Char) : Except TagError Symbol :=
  .alternative <$> elseCondition content

def partialSymbol (content : List Char) (symbol : PartialName → Invocation → Symbol) :
    Except TagError Symbol := do
  let (_, name, i) ← TextTemplate.partialTag content
  pure (symbol name i)

def definitionSymbol (content : List Char) : Except TagError Symbol := do
  let name ← definedName content
  pure (.openDefinition name)

/-- What a tag says, if its arguments are in order. -/
def symbol (t : Tag) : Except TagError Symbol :=
  match t.kind with
  | .comment => .ok .comment
  | .quoted => .ok (.text t.content)
  | .escapedValue => valueSymbol t.content true
  | .rawValue => valueSymbol t.content false
  | .opening => blockSymbol t.content false
  | .inverse => blockSymbol t.content true
  | .alternative => elseSymbol t.content
  | .closing => .ok (.closing t.content)
  | .partialTag => partialSymbol t.content .partialTag
  | .partialBlock => partialSymbol t.content .openPartial
  | .definition => definitionSymbol t.content

end Tag

/-- Puts a node behind others, which are listed last first. -/
def pushNode : Node → List Node → List Node
  | .text s, .text s' :: ns => .text (s' ++ s) :: ns
  | n, ns => n :: ns

def pushTree (t : Tree) (ns : List Node) : List Node :=
  match t.node? with
  | none => ns
  | some n => pushNode n ns

/-- The nodes of a forest, last first. -/
def pushed (ts : List Tree) : List Node := ts.foldl (fun ns t => pushTree t ns) []

/-- Nodes that are listed last first, in front of others. -/
def joinNodes : List Node → List Node → List Node
  | .text s :: ns, .text s' :: rest => ns.reverse ++ .text (s ++ s') :: rest
  | ns, rest => ns.reverse ++ rest

section nodes
variable {ts : List Tree} {t : Tree} {ns rest : List Node}

theorem joinNodes_nil_right : joinNodes ns [] = ns.reverse := by
  rw [joinNodes.eq_def]
  split
  · rename_i h
    cases h
  · exact List.append_nil _

theorem joinNodes_pushNode (n : Node) :
    joinNodes (pushNode n ns) rest = joinNodes ns (consNode n rest) := by
  cases n with
  | text s =>
    rcases ns with _ | ⟨_ | _ | _ | _, ns⟩ <;> rcases rest with _ | ⟨_ | _ | _ | _, rest⟩ <;>
      simp [pushNode, joinNodes, consNode, String.append_assoc]
  | value | block | partialTag =>
    rcases ns with _ | ⟨_ | _ | _ | _, ns⟩ <;> simp [pushNode, joinNodes, consNode]

theorem reverse_foldl_pushTree :
    (ts.foldl (fun ns t => pushTree t ns) ns).reverse = joinNodes ns (forestNodes ts) := by
  induction ts generalizing ns with
  | nil => exact joinNodes_nil_right.symm
  | cons t ts ih =>
    rw [List.foldl_cons, ih, forestNodes, pushTree]
    cases t.node? with
    | none => rfl
    | some n => exact joinNodes_pushNode n

theorem reverse_pushed : (pushed ts).reverse = forestNodes ts := reverse_foldl_pushTree

theorem pushed_append_singleton : pushed (ts ++ [t]) = pushTree t (pushed ts) := by
  rw [pushed, List.foldl_append]
  rfl

end nodes

namespace Branches

/-- The body of a block under construction, last node first. -/
def pushedBody : Branches → List Node
  | body trees => pushed trees
  | branch before _ _ => before.pushedBody

/-- The branches of a block under construction, last one first. -/
def pushedAlternates : Branches → List Alternate
  | body _ => []
  | branch before condition trees => ⟨some condition, pushed trees⟩ :: before.pushedAlternates

theorem reverse_pushedBody : ∀ b : Branches, b.pushedBody.reverse = b.bodyNodes
  | body _ => by
    rw [pushedBody, bodyNodes, reverse_pushed]
  | branch before _ _ => by
    rw [pushedBody, bodyNodes, reverse_pushedBody before]

theorem reverse_pushedAlternates :
    ∀ b : Branches, b.pushedAlternates.reverse.map Builder.finishAlternate = b.alternates
  | body _ => rfl
  | branch before condition trees => by
    rw [pushedAlternates, alternates, List.reverse_cons, List.map_append,
      reverse_pushedAlternates before, List.map_singleton, Builder.finishAlternate, reverse_pushed]

/-- All branches so far have a condition. -/
theorem any_head?_pushedAlternates (b : Branches) :
    b.pushedAlternates.head?.any (·.condition.isNone) = false := by
  cases b <;> rfl

end Branches

namespace OpenTree

def pushedFinal : Option (List Tree) → List Alternate
  | none => []
  | some trees => [⟨none, pushed trees⟩]

/-- What the builder keeps of an open tree. -/
def scope (raw : List Char) : OpenTree → OpenScope
  | block name i negated branches final =>
    ⟨.block name i negated, raw, branches.pushedBody,
      pushedFinal final ++ branches.pushedAlternates⟩
  | partialBlock name i body => ⟨.partialBlock name.closeName name i, raw, pushed body, []⟩
  | definition name body => ⟨.definition name, raw, pushed body, []⟩

/-- Changes the list that new nodes go to. -/
def updateScope (f : List Node → List Node) (s : OpenScope) : OpenScope :=
  match s.alternates with
  | [] => { s with body := f s.body }
  | a :: alternates => { s with alternates := { a with body := f a.body } :: alternates }

theorem updateScope_scope (o : OpenTree) (t : Tree) (raw : List Char) :
    updateScope (pushTree t) (o.scope raw) = (o.extend [t]).scope raw := by
  cases o with
  | block name i negated branches final =>
    cases final with
    | some trees => simp [scope, updateScope, pushedFinal, extend, pushed_append_singleton]
    | none =>
      cases branches <;>
        simp [scope, updateScope, pushedFinal, extend, Branches.extend, Branches.pushedBody,
          Branches.pushedAlternates, pushed_append_singleton]
  | partialBlock | definition => simp [scope, updateScope, extend, pushed_append_singleton]

theorem closeName_scope (o : OpenTree) (raw : List Char) :
    (o.scope raw).opening.closeName = o.closeName := by
  cases o <;> rfl

end OpenTree

namespace Zipper

/-- The definitions that are closed already. -/
def definitions (z : Zipper) : List (String × List Tree) :=
  forestDefinitions z.trees ++ z.opened.reverse.flatMap OpenTree.definitions

/-- The open trees and the nodes outside are those of the builder. -/
structure Shapes (z : Zipper) (b : Builder) : Prop where
  nodes : b.nodes = pushed z.trees
  scopes : List.Forall₂ (fun o s => ∃ raw, s = o.scope raw) z.opened b.scopes

/-- The builder holds what the zipper holds. -/
structure Builds (z : Zipper) (b : Builder) : Prop extends Shapes z b where
  partials : b.partials = (definedPartials z.definitions).reverse

variable {z : Zipper} {b : Builder} {t : Tree}

theorem definitions_extend (ts : List Tree) :
    (z.extend ts).definitions = z.definitions ++ forestDefinitions ts := by
  obtain ⟨opened, trees⟩ := z
  cases opened with
  | nil => simp [extend, definitions, forestDefinitions_append]
  | cons o os => simp [extend, definitions, OpenTree.definitions_extend]

theorem definitions_push (o : OpenTree) :
    (z.push o).definitions = z.definitions ++ o.definitions := by
  simp [push, definitions]

theorem update_cons (f : List Node → List Node) (s : OpenScope) (scopes : List OpenScope)
    (nodes : List Node) (partials : List (String × Template)) :
    Builder.update f ⟨s :: scopes, nodes, partials⟩ =
      ⟨OpenTree.updateScope f s :: scopes, nodes, partials⟩ := by
  obtain ⟨opening, raw, body, alternates⟩ := s
  cases alternates <;> rfl

theorem Shapes.update (h : Shapes z b) (t : Tree) :
    Shapes (z.extend [t]) (b.update (pushTree t)) := by
  obtain ⟨opened, trees⟩ := z
  obtain ⟨scopes, nodes, partials⟩ := b
  obtain ⟨hn, hs⟩ := h
  cases hs with
  | nil =>
    refine ⟨?_, .nil⟩
    simp only [Builder.update, extend, pushed_append_singleton]
    rw [← hn]
  | @cons o _ os scopes ho hs =>
    obtain ⟨raw, rfl⟩ := ho
    rw [update_cons]
    refine ⟨hn, .cons ⟨raw, ?_⟩ hs⟩
    exact OpenTree.updateScope_scope o t raw

theorem partials_update (f : List Node → List Node) (b : Builder) :
    (b.update f).partials = b.partials := by
  obtain ⟨scopes, nodes, partials⟩ := b
  cases scopes with
  | nil => rfl
  | cons s scopes => rw [update_cons]

theorem Builds.update (h : Builds z b) (t : Tree) (ht : t.definitions = []) :
    Builds (z.extend [t]) (b.update (pushTree t)) := by
  refine ⟨h.toShapes.update t, ?_⟩
  rw [partials_update, definitions_extend, forestDefinitions, ht]
  simpa [forestDefinitions] using h.partials

theorem Builds.push (h : Builds z b) (o : OpenTree) (raw : List Char)
    (ho : o.definitions = []) :
    Builds (z.push o) { b with scopes := o.scope raw :: b.scopes } := by
  refine ⟨⟨h.nodes, .cons ⟨raw, rfl⟩ h.scopes⟩, ?_⟩
  rw [definitions_push, ho, List.append_nil]
  exact h.partials

theorem update_id (b : Builder) : b.update (fun ns => ns) = b := by
  obtain ⟨scopes, nodes, partials⟩ := b
  cases scopes with
  | nil => rfl
  | cons s scopes =>
    rw [update_cons]
    obtain ⟨opening, raw, body, alternates⟩ := s
    rcases alternates with _ | ⟨⟨condition, trees⟩, alternates⟩ <;> rfl

theorem pushText_eq (text : List Char) (b : Builder) :
    b.pushText text = b.update (pushTree (.text text)) := by
  rw [Builder.pushText]
  by_cases ht : text = []
  · subst ht
    exact (update_id b).symm
  · rw [if_neg ht]
    congr 1
    funext ns
    simp only [pushTree, Tree.node?, ht, if_false]
    rcases ns with _ | ⟨_ | _ | _ | _, ns⟩ <;> rfl

/-- Both go on, and to the same place, or neither does. -/
def Agrees {ε : Type} (z : Option Zipper) (r : Except ε Builder) : Prop :=
  match z, r with
  | some z, .ok b => Builds z b
  | none, .error _ => True
  | _, _ => False

theorem agrees_mapError {ε δ : Type} {o : Option Zipper} {r : Except ε Builder} (f : ε → δ)
    (h : Agrees o r) : Agrees o (r.mapError f) := by
  cases o <;> cases r <;> exact h

section agreement
variable {ε : Type} {o : Option Zipper} {r : Except ε Builder}

theorem Agrees.bind {f : Zipper → Option Zipper} {g : Builder → Except ε Builder} (h : Agrees o r)
    (hf : ∀ {z b}, Builds z b → Agrees (f z) (g b)) : Agrees (o.bind f) (r >>= g) := by
  cases o with
  | none =>
    cases r with
    | error e => trivial
    | ok b => cases h
  | some z =>
    cases r with
    | error e => cases h
    | ok b => exact hf h

theorem Agrees.of_ok (h : Agrees o (.ok b : Except ε Builder)) : ∃ z, o = some z ∧ Builds z b := by
  cases o with
  | none => cases h
  | some z => exact ⟨z, rfl, h⟩

theorem Agrees.of_some (h : Agrees (some z) r) : ∃ b, r = .ok b ∧ Builds z b := by
  cases r with
  | error e => cases h
  | ok b => exact ⟨b, rfl, h⟩

end agreement

theorem agrees_value (h : Builds z b) (content : List Char) (escaped : Bool) :
    Agrees ((Tag.valueSymbol content escaped).toOption.bind z.absorb)
      (b.pushValue content escaped) := by
  rw [Tag.valueSymbol, Builder.pushValue]
  cases withinTag (Invocation.parse content) with
  | error e => trivial
  | ok i =>
    by_cases ha : i.aliases = []
    · simp only [bind, Except.bind, ha, ne_eq, not_true, if_false]
      exact h.update (.value i escaped) rfl
    · simp only [bind, Except.bind, ha, ne_eq, not_false_eq_true, if_true]
      trivial

theorem agrees_block (h : Builds z b) (t : Tag) (negated : Bool) :
    Agrees ((Tag.blockSymbol t.content negated).toOption.bind z.absorb)
      (b.openBlock t negated) := by
  rw [Tag.blockSymbol, Builder.openBlock]
  cases firstToken t.content with
  | error e => trivial
  | ok name =>
    cases withinTag (Invocation.parse t.content) with
    | error e => trivial
    | ok i => exact h.push (.block name.value i negated (.body []) none) t.raw rfl

theorem bind_eq_ok {ε α β : Type} {x : Except ε α} {f : α → Except ε β} {b : β}
    (h : x >>= f = .ok b) : ∃ a, x = .ok a ∧ f a = .ok b := by
  cases x with
  | error e => cases h
  | ok a => exact ⟨a, rfl, h⟩

theorem toOption_eq_some {ε α : Type} {x : Except ε α} {a : α} (h : x.toOption = some a) :
    x = .ok a := by
  cases x with
  | error e => cases h
  | ok b =>
    cases h
    rfl

theorem closeName_of_partialName {t : Token} {close : List Char} {name : PartialName}
    (h : partialName t = .ok (close, name)) : name.closeName = close := by
  rw [partialName.eq_def] at h
  split at h
  · cases h
  · cases h
    exact String.toList_ofList
  · obtain ⟨s, -, h⟩ := bind_eq_ok h
    cases h
    exact String.toList_ofList
  · cases h
  · obtain ⟨call, -, h⟩ := bind_eq_ok h
    cases h
    rfl
  · cases h

theorem withinTag_eq_ok {α : Type} {x : Except ArgumentError α} {a : α} (h : withinTag x = .ok a) :
    x = .ok a := by
  cases x with
  | error e => cases h
  | ok b =>
    cases h
    rfl

/-- What a partial tag says is read from its first piece and from what follows it. -/
theorem exists_of_partialTag {content close : List Char} {name : PartialName} {i : Invocation}
    (h : partialTag content = .ok (close, name, i)) :
    ∃ u, firstToken content = .ok u ∧ partialName u = .ok (close, name) ∧
      Invocation.parseArguments u.tail = .ok i ∧ i.params.length ≤ 1 ∧ i.aliases = [] := by
  obtain ⟨u, hu, h⟩ := bind_eq_ok h
  obtain ⟨⟨close', name'⟩, hname, h⟩ := bind_eq_ok h
  obtain ⟨k, hk, h⟩ := bind_eq_ok h
  by_cases hp : 1 < k.params.length
  · simp only [hp, if_true] at h
    cases h
  · by_cases ha : k.aliases = []
    · simp only [hp, ha, if_false, ne_eq, not_true] at h
      cases h
      exact ⟨u, hu, hname, withinTag_eq_ok hk, Nat.le_of_not_lt hp, ha⟩
    · simp only [hp, ha, if_false, ne_eq, not_false_eq_true, if_true] at h
      cases h

/-- A partial tag is closed by the name that it gives. -/
theorem closeName_of_partialTag {content close : List Char} {name : PartialName} {i : Invocation}
    (h : partialTag content = .ok (close, name, i)) : name.closeName = close := by
  obtain ⟨u, -, hname, -⟩ := exists_of_partialTag h
  exact closeName_of_partialName hname

theorem agrees_partialTag (h : Builds z b) (t : Tag) (ht : t.kind = .partialTag) :
    Agrees ((Tag.partialSymbol t.content .partialTag).toOption.bind z.absorb) (b.apply t) := by
  rw [Tag.partialSymbol, Builder.apply, ht]
  cases partialTag t.content with
  | error e => trivial
  | ok x =>
    obtain ⟨close, name, i⟩ := x
    exact h.update (.partialTag name i) rfl

theorem agrees_partialBlock (h : Builds z b) (t : Tag) (ht : t.kind = .partialBlock) :
    Agrees ((Tag.partialSymbol t.content .openPartial).toOption.bind z.absorb) (b.apply t) := by
  rw [Tag.partialSymbol, Builder.apply, ht]
  cases hp : partialTag t.content with
  | error e => trivial
  | ok x =>
    obtain ⟨close, name, i⟩ := x
    obtain rfl := closeName_of_partialTag hp
    exact h.push (.partialBlock name i []) t.raw rfl

theorem agrees_definition (h : Builds z b) (t : Tag) (ht : t.kind = .definition) :
    Agrees ((Tag.definitionSymbol t.content).toOption.bind z.absorb) (b.apply t) := by
  rw [Tag.definitionSymbol, Builder.apply, ht]
  cases definedName t.content with
  | error e => trivial
  | ok name => exact h.push (.definition name []) t.raw rfl

theorem definitions_branch {o o' : OpenTree} {os : List OpenTree} {trees : List Tree}
    {c : Option Invocation} (h : o.branch? c = some o') :
    definitions ⟨o' :: os, trees⟩ = definitions ⟨o :: os, trees⟩ := by
  have hd := OpenTree.definitions_branch? h
  simp only [definitions, List.reverse_cons, List.flatMap_append, List.flatMap_singleton, hd]

theorem pushElse_eq (content : List Char) (b : Builder) :
    b.pushElse content =
      match b.scopes with
      | ⟨.block name i negated, raw, body, alternates⟩ :: scopes =>
        if alternates.head?.any (·.condition.isNone) then .error .elseAfterElse
        else (Tag.elseCondition content).map fun condition => { b with
          scopes := ⟨.block name i negated, raw, body, ⟨condition, []⟩ :: alternates⟩ :: scopes }
      | _ => .error .elseOutsideBlock := by
  obtain ⟨scopes, nodes, partials⟩ := b
  rcases scopes with _ | ⟨⟨_ | _ | _, raw, body, alternates⟩, scopes⟩
  case cons.block name i negated =>
    simp only [Builder.pushElse, Tag.elseCondition]
    cases alternates.head?.any (·.condition.isNone) with
    | true => rfl
    | false =>
      by_cases hc : content = []
      · simp only [hc, if_true]
        rfl
      · simp only [hc, if_false]
        cases withinTag (Invocation.parse content) <;> rfl
  all_goals rfl

theorem agrees_else (h : Builds z b) (content : List Char) :
    Agrees ((Tag.elseSymbol content).toOption.bind z.absorb) (b.pushElse content) := by
  obtain ⟨opened, trees⟩ := z
  obtain ⟨scopes, nodes, partials⟩ := b
  obtain ⟨⟨hn, hs⟩, hp⟩ := h
  rw [Tag.elseSymbol, pushElse_eq]
  cases hs with
  | nil => cases Tag.elseCondition content <;> trivial
  | @cons o _ os scopes ho hs =>
    obtain ⟨raw, rfl⟩ := ho
    cases o with
    | partialBlock | definition => cases Tag.elseCondition content <;> trivial
    | block name i negated branches final =>
      cases final with
      | some body => cases Tag.elseCondition content <;> trivial
      | none =>
        have hlast := branches.any_head?_pushedAlternates
        simp only [OpenTree.scope, OpenTree.pushedFinal, List.nil_append, hlast,
          Bool.false_eq_true, if_false]
        cases Tag.elseCondition content with
        | error e => trivial
        | ok condition =>
          let o := OpenTree.block name i negated branches none
          cases condition with
          | none =>
            refine ⟨⟨hn, .cons ⟨raw, rfl⟩ hs⟩, ?_⟩
            rw [definitions_branch (o := o) (c := none) rfl]
            exact hp
          | some c =>
            refine ⟨⟨hn, .cons ⟨raw, rfl⟩ hs⟩, ?_⟩
            rw [definitions_branch (o := o) (c := some c) rfl]
            exact hp

/-- A closed scope is where the builder puts the closed tree. -/
theorem closeScope_scope (o : OpenTree) (raw : List Char) (b : Builder) :
    b.closeScope (o.scope raw) =
      match o with
      | .definition name body =>
        { b with partials := (name, ⟨forestNodes body, []⟩) :: b.partials }
      | o => b.update (pushTree o.close) := by
  cases o with
  | definition name body =>
    rw [OpenTree.scope, Builder.closeScope, reverse_pushed]
  | partialBlock name i body =>
    rw [OpenTree.scope, Builder.closeScope, reverse_pushed]
    rfl
  | block name i negated branches final =>
    have hf : (OpenTree.pushedFinal final ++ branches.pushedAlternates).reverse.map
        Builder.finishAlternate = branches.alternates ++ finalAlternates final := by
      rw [List.reverse_append, List.map_append, branches.reverse_pushedAlternates]
      cases final with
      | none => exact (List.append_nil _).symm ▸ rfl
      | some body =>
        simp [OpenTree.pushedFinal, Builder.finishAlternate, reverse_pushed, finalAlternates]
    simp only [OpenTree.scope, Builder.closeScope, hf, branches.reverse_pushedBody]
    rfl

theorem Builds.close {o : OpenTree} {os : List OpenTree} {trees : List Tree} {raw : List Char}
    {scopes : List OpenScope} {nodes : List Node} {partials : List (String × Template)}
    (h : Builds ⟨o :: os, trees⟩ ⟨o.scope raw :: scopes, nodes, partials⟩) :
    Builds (extend [o.close] ⟨os, trees⟩)
      (Builder.closeScope (o.scope raw) ⟨scopes, nodes, partials⟩) := by
  have hs : Shapes ⟨os, trees⟩ ⟨scopes, nodes, partials⟩ := by
    refine ⟨h.nodes, ?_⟩
    cases h.scopes with
    | cons _ hs => exact hs
  have hp : partials =
      (definedPartials (definitions ⟨os, trees⟩ ++ o.definitions)).reverse := by
    rw [← definitions_push]
    exact h.partials
  have hu := hs.update o.close
  rw [closeScope_scope]
  cases o with
  | definition name body =>
    have hid : pushTree (OpenTree.definition name body).close = fun ns => ns := rfl
    rw [hid, update_id] at hu
    refine ⟨⟨hu.nodes, hu.scopes⟩, ?_⟩
    rw [definitions_extend, hp]
    simp [forestDefinitions, OpenTree.close, Tree.definitions, OpenTree.definitions,
      definedPartials]
  | partialBlock name i body =>
    refine ⟨hu, ?_⟩
    rw [partials_update, definitions_extend, hp]
    simp [forestDefinitions, OpenTree.close, Tree.definitions, OpenTree.definitions]
  | block name i negated branches final =>
    refine ⟨hu, ?_⟩
    rw [partials_update, definitions_extend, hp]
    simp [forestDefinitions, OpenTree.close, Tree.definitions, OpenTree.definitions]

theorem agrees_close (h : Builds z b) (t : Tag) :
    Agrees (z.absorb (.closing t.content)) (b.close t) := by
  obtain ⟨opened, trees⟩ := z
  obtain ⟨scopes, nodes, partials⟩ := b
  cases opened with
  | nil =>
    cases h.scopes with
    | nil => trivial
  | cons o os =>
    rcases scopes with _ | ⟨s, scopes⟩
    · cases h.scopes
    · have hs : ∃ raw, s = o.scope raw := by
        cases h.scopes with
        | cons ho _ => exact ho
      obtain ⟨raw, rfl⟩ := hs
      rw [Builder.close, absorb]
      simp only [OpenTree.closeName_scope]
      by_cases hname : o.closeName = t.content
      · simp only [hname, if_true]
        exact h.close
      · simp only [hname, if_false]
        trivial

theorem agrees_apply (h : Builds z b) (t : Tag) :
    Agrees (t.symbol.toOption.bind z.absorb) (b.apply t) := by
  cases ht : t.kind with
  | comment =>
    rw [Tag.symbol, Builder.apply, ht]
    have hc := h.update .comment rfl
    have hid : pushTree .comment = fun ns => ns := rfl
    rw [hid, update_id] at hc
    exact hc
  | quoted =>
    rw [Tag.symbol, Builder.apply, ht]
    simp only [pushText_eq]
    exact h.update (.text t.content) rfl
  | escapedValue | rawValue =>
    rw [Tag.symbol, Builder.apply, ht]
    exact agrees_value h t.content _
  | opening | inverse =>
    rw [Tag.symbol, Builder.apply, ht]
    exact agrees_block h t _
  | alternative =>
    rw [Tag.symbol, Builder.apply, ht]
    exact agrees_else h t.content
  | closing =>
    rw [Tag.symbol, Builder.apply, ht]
    exact agrees_close h t
  | partialTag =>
    rw [Tag.symbol, ht]
    exact agrees_partialTag h t ht
  | partialBlock =>
    rw [Tag.symbol, ht]
    exact agrees_partialBlock h t ht
  | definition =>
    rw [Tag.symbol, ht]
    exact agrees_definition h t ht

/-- Tags in symbols, each behind the text before it. -/
def interleave (tags : List Tag) (symbols : List Symbol) : List Symbol :=
  (List.zipWith (fun t s => [.text t.before, s]) tags symbols).flatten

theorem agrees_step (h : Builds z b) (t : Tag) :
    Agrees (t.symbol.toOption.bind fun s => z.run [.text t.before, s]) (b.step t) := by
  have hb := h.update (.text t.before) rfl
  rw [← pushText_eq] at hb
  have ha := agrees_apply hb t
  have hrun : (fun s => z.run [.text t.before, s]) = (z.extend [.text t.before]).absorb := by
    funext s
    rw [run_cons, absorb, Option.bind_some, run_cons]
    exact Option.bind_fun_some _
  rw [hrun]
  exact agrees_mapError _ ha

theorem run_interleave_cons (t : Tag) (tags : List Tag) (s : Symbol) (symbols : List Symbol) :
    z.run (interleave (t :: tags) (s :: symbols)) =
      (z.run [.text t.before, s]).bind fun z => z.run (interleave tags symbols) := by
  rw [← run_append]
  rfl

theorem bind_mapM_cons (t : Tag) (tags : List Tag) :
    ((t :: tags).mapM Tag.symbol).toOption.bind
        (fun symbols => z.run (interleave (t :: tags) symbols)) =
      (t.symbol.toOption.bind fun s => z.run [.text t.before, s]).bind fun z =>
        (tags.mapM Tag.symbol).toOption.bind fun symbols => z.run (interleave tags symbols) := by
  rw [List.mapM_cons]
  cases t.symbol with
  | error e => rfl
  | ok s =>
    cases tags.mapM Tag.symbol with
    | error e => exact (Option.bind_fun_none _).symm
    | ok symbols => exact run_interleave_cons t tags s symbols

/-- The builder goes through the tags as the zipper goes through their symbols. -/
theorem agrees_foldlM (h : Builds z b) (tags : List Tag) :
    Agrees ((tags.mapM Tag.symbol).toOption.bind fun symbols => z.run (interleave tags symbols))
      (tags.foldlM Builder.step b) := by
  induction tags generalizing z b with
  | nil => exact h
  | cons t tags ih =>
    rw [bind_mapM_cons, List.foldlM_cons]
    exact (agrees_step h t).bind ih

theorem finish_eq_ok_iff (h : Builds z b) {T : Template} :
    b.finish = .ok T ↔ z.opened = [] ∧ T = Template.ofForest z.trees := by
  obtain ⟨opened, trees⟩ := z
  obtain ⟨scopes, nodes, partials⟩ := b
  obtain ⟨⟨hn, hs⟩, hp⟩ := h
  cases hs with
  | cons ho hs => simp [Builder.finish]
  | nil =>
    have hd : definitions ⟨[], trees⟩ = forestDefinitions trees := List.append_nil _
    have ht : (⟨nodes.reverse, partials.reverse⟩ : Template) = Template.ofForest trees := by
      simp only at hn hp
      rw [hn, hp, hd, reverse_pushed, List.reverse_reverse]
      rfl
    simp only [Builder.finish, Except.ok.injEq, ht, true_and]
    exact eq_comm

end Zipper

open Zipper in
/-- A source compiles exactly when its tags can all be found, their arguments are in order, and the
grammar derives them; the template is that of the derivation. -/
theorem Template.compile_eq_ok_iff (d : Delimiters) (source : String) (T : Template) :
    Template.compile d source = .ok T ↔
      ∃ rest symbols forest,
        (Tag.scan d source.toList).rest = .ok rest ∧
        (Tag.scan d source.toList).tags.mapM Tag.symbol = .ok symbols ∧
        forestYield forest = interleave (Tag.scan d source.toList).tags symbols ++ [.text rest] ∧
        T = Template.ofForest forest := by
  rw [Template.compile]
  generalize (Tag.scan d source.toList).tags = tags, (Tag.scan d source.toList).rest = last
  have hempty : Builds .empty .empty := ⟨⟨rfl, .nil⟩, rfl⟩
  have ha := agrees_foldlM hempty tags
  constructor
  · intro h
    obtain ⟨b, hb, h⟩ := bind_eq_ok h
    obtain ⟨rest, rfl, h⟩ := bind_eq_ok h
    rw [hb] at ha
    obtain ⟨z, hz, hbuilds⟩ := ha.of_ok
    obtain ⟨symbols, hsym, hz⟩ := Option.bind_eq_some_iff.1 hz
    have hlast := hbuilds.update (.text rest) rfl
    rw [← pushText_eq] at hlast
    obtain ⟨hopen, rfl⟩ := (finish_eq_ok_iff hlast).1 h
    refine ⟨rest, symbols, (z.extend [.text rest]).trees, rfl, toOption_eq_some hsym, ?_, rfl⟩
    have hforest : z.extend [.text rest] = ⟨[], (z.extend [.text rest]).trees⟩ := by
      rw [← hopen]
    rw [← run_eq_some_iff, run_append, hz]
    exact congrArg some hforest
  · rintro ⟨rest, symbols, forest, rfl, hsym, hf, rfl⟩
    have hrun := run_eq_some_iff.2 hf
    rw [run_append] at hrun
    obtain ⟨z, hz, hlast⟩ := Option.bind_eq_some_iff.1 hrun
    have hforest : z.extend [.text rest] = ⟨[], forest⟩ := Option.some.inj hlast
    rw [hsym, Except.toOption, Option.bind_some, hz] at ha
    obtain ⟨b, hb, hbuilds⟩ := ha.of_some
    have hlast := hbuilds.update (.text rest) rfl
    rw [← pushText_eq, hforest] at hlast
    rw [hb]
    exact (finish_eq_ok_iff hlast).2 ⟨rfl, rfl⟩

end TextTemplate
