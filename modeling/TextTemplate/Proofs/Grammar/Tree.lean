import TextTemplate.Template.Builder

/-! The grammar of templates: derivations, the symbols that they derive, and the templates that
they mean. -/

namespace TextTemplate

/-- The name that closes a partial tag with a body. -/
def PartialName.closeName : PartialName → List Char
  | fixed name => name.toList
  | computed call => (call.helper.getD "").toList

/-- A piece of a source: a text between tags, or a tag with its arguments. -/
inductive Symbol
  | text (s : List Char)
  | comment
  | value (invocation : Invocation) (escaped : Bool)
  | partialTag (name : PartialName) (invocation : Invocation)
  | openBlock (name : List Char) (invocation : Invocation) (negated : Bool)
  | openPartial (name : PartialName) (invocation : Invocation)
  | openDefinition (name : String)
  | alternative (condition : Option Invocation)
  | closing (name : List Char)

mutual

/-- What a forest is made of. Only the last branch of a block may have no condition. -/
inductive Tree
  | text (s : List Char)
  | comment
  | value (invocation : Invocation) (escaped : Bool)
  | partialTag (name : PartialName) (invocation : Invocation)
  | block (name : List Char) (invocation : Invocation) (negated : Bool) (branches : Branches)
      (final : Option (List Tree))
  | partialBlock (name : PartialName) (invocation : Invocation) (body : List Tree)
  | definition (name : String) (body : List Tree)

/-- The body of a block and its branches with a condition, from left to right. -/
inductive Branches
  | body (trees : List Tree)
  | branch (before : Branches) (condition : Invocation) (trees : List Tree)

end

/-- The word that closes the definition of a partial. -/
def definitionWord : List Char := ['i', 'n', 'l', 'i', 'n', 'e']

mutual

/-- The symbols that a tree derives. -/
def Tree.yield : Tree → List Symbol
  | .text s => [.text s]
  | .comment => [.comment]
  | .value i escaped => [.value i escaped]
  | .partialTag name i => [.partialTag name i]
  | .block name i negated branches final =>
    .openBlock name i negated :: (branches.yield ++ (finalYield final ++ [.closing name]))
  | .partialBlock name i body =>
    .openPartial name i :: (forestYield body ++ [.closing name.closeName])
  | .definition name body => .openDefinition name :: (forestYield body ++ [.closing definitionWord])

def Branches.yield : Branches → List Symbol
  | .body trees => forestYield trees
  | .branch before condition trees =>
    before.yield ++ (.alternative (some condition) :: forestYield trees)

def finalYield : Option (List Tree) → List Symbol
  | none => []
  | some trees => .alternative none :: forestYield trees

def forestYield : List Tree → List Symbol
  | [] => []
  | t :: ts => t.yield ++ forestYield ts

end

/-- Puts a node in front of others; texts next to each other become one. -/
def consNode : Node → List Node → List Node
  | .text s, .text s' :: ns => .text (s ++ s') :: ns
  | n, ns => n :: ns

def consNode? (o : Option Node) (ns : List Node) : List Node :=
  match o with
  | none => ns
  | some n => consNode n ns

mutual

/-- What a tree shows in its place. -/
def Tree.node? : Tree → Option Node
  | .text s => if s = [] then none else some (.text (String.ofList s))
  | .comment => none
  | .value i escaped => some (.value i escaped)
  | .partialTag name i => some (.partialTag ⟨name, i, none⟩)
  | .block name i negated branches final =>
    some (.block ⟨String.ofList name, i, negated, branches.bodyNodes,
      branches.alternates ++ finalAlternates final⟩)
  | .partialBlock name i body => some (.partialTag ⟨name, i, some (forestNodes body)⟩)
  | .definition _ _ => none

def Branches.bodyNodes : Branches → List Node
  | .body trees => forestNodes trees
  | .branch before _ _ => before.bodyNodes

def Branches.alternates : Branches → List Alternate
  | .body _ => []
  | .branch before condition trees => before.alternates ++ [⟨some condition, forestNodes trees⟩]

def finalAlternates : Option (List Tree) → List Alternate
  | none => []
  | some trees => [⟨none, forestNodes trees⟩]

def forestNodes : List Tree → List Node
  | [] => []
  | t :: ts => consNode? t.node? (forestNodes ts)

end

mutual

/-- The definitions in a tree, in the order in which they are closed. -/
def Tree.definitions : Tree → List (String × List Tree)
  | .text _ => []
  | .comment => []
  | .value _ _ => []
  | .partialTag _ _ => []
  | .block _ _ _ branches final => branches.definitions ++ finalDefinitions final
  | .partialBlock _ _ body => forestDefinitions body
  | .definition name body => forestDefinitions body ++ [(name, body)]

def Branches.definitions : Branches → List (String × List Tree)
  | .body trees => forestDefinitions trees
  | .branch before _ trees => before.definitions ++ forestDefinitions trees

def finalDefinitions : Option (List Tree) → List (String × List Tree)
  | none => []
  | some trees => forestDefinitions trees

def forestDefinitions : List Tree → List (String × List Tree)
  | [] => []
  | t :: ts => t.definitions ++ forestDefinitions ts

end

/-- The partials that definitions define. -/
def definedPartials (definitions : List (String × List Tree)) : List (String × Template) :=
  definitions.map fun (name, body) => (name, ⟨forestNodes body, []⟩)

/-- The template that a forest means. -/
def Template.ofForest (trees : List Tree) : Template :=
  ⟨forestNodes trees, definedPartials (forestDefinitions trees)⟩

end TextTemplate
