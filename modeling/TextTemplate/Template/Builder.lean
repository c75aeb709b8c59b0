import TextTemplate.Invocation.Parser
import TextTemplate.Tag.Scan
import TextTemplate.Template.Basic

/-! Building the tree of a template from the tags of its source. -/

namespace TextTemplate

/-- What an open tag began. A partial block is closed by the name it was opened with. -/
inductive Opening
  | block (name : List Char) (invocation : Invocation) (negated : Bool)
  | partialBlock (close : List Char) (name : PartialName) (invocation : Invocation)
  | definition (name : String)

def Opening.closeName : Opening → List Char
  | block name _ _ => name
  | partialBlock close _ _ => close
  | definition _ => ['i', 'n', 'l', 'i', 'n', 'e']

/-- An open tag that waits for its closing tag. Nodes and alternates are listed last first. -/
structure OpenScope where
  opening : Opening
  raw : List Char
  body : List Node
  alternates : List Alternate

/-- A template under construction: open tags from the innermost out, and what stands outside them.
All lists are last first. -/
structure Builder where
  scopes : List OpenScope
  nodes : List Node
  partials : List (String × Template)

/-- Reads the first piece of a tag. -/
def firstToken (content : List Char) : Except TagError Token :=
  match Token.first? content with
  | .error e => .error (.argument e)
  | .ok none => .error .missingName
  | .ok (some t) => .ok t

def withinTag {α : Type} (x : Except ArgumentError α) : Except TagError α := x.mapError .argument

/-- How a partial tag names its template, and the name that closes it. -/
def partialName (t : Token) : Except TagError (List Char × PartialName) :=
  match t.key, t.kind, t.value with
  | some _, _, _ => .error .missingPartialName
  | none, .word, name => .ok (name, .fixed (String.ofList name))
  | none, .string, quote :: s => do
    let name ← withinTag (stringLiteral quote s)
    pure (name, .fixed (String.ofList name))
  | none, .string, [] => .error .missingPartialName
  | none, .group inner, _ => do
    let call ← withinTag (Invocation.parseCall inner)
    pure ((call.helper.getD "").toList, .computed call)
  | none, .blockParams, _ => .error .missingPartialName

/-- Name to close, name and arguments of a partial tag. -/
def partialTag (content : List Char) : Except TagError (List Char × PartialName × Invocation) := do
  let t ← firstToken content
  let (close, name) ← partialName t
  let i ← withinTag (Invocation.parseArguments t.tail)
  if 1 < i.params.length then throw .manyPartialContexts
  if i.aliases ≠ [] then throw .partialBlockParams
  pure (close, name, i)

/-- The name of a partial that a template defines: a quoted one, behind the word `inline`. -/
def definedName (content : List Char) : Except TagError String := do
  let t ← firstToken content
  if t.value ≠ ['i', 'n', 'l', 'i', 'n', 'e'] then throw (.unsupportedDecorator t.value)
  match ← withinTag (Token.next? t.tail) with
  | some ⟨.string, quote :: s, none, []⟩ =>
    let name ← withinTag (stringLiteral quote s)
    pure (String.ofList name)
  | _ => throw .missingDefinitionName

namespace Builder

def empty : Builder := ⟨[], [], []⟩

/-- Changes the list that new nodes go to: the last branch of the innermost open tag. -/
def update (f : List Node → List Node) (b : Builder) : Builder :=
  match b.scopes with
  | [] => { b with nodes := f b.nodes }
  | s :: scopes =>
    match s.alternates with
    | [] => { b with scopes := { s with body := f s.body } :: scopes }
    | a :: alternates =>
      let a := { a with body := f a.body }
      { b with scopes := { s with alternates := a :: alternates } :: scopes }

def push (node : Node) (b : Builder) : Builder := b.update (node :: ·)

/-- Texts next to each other become one node, and an empty text none. -/
def pushText (text : List Char) (b : Builder) : Builder :=
  if text = [] then b
  else b.update fun
    | .text s :: nodes => .text (s ++ String.ofList text) :: nodes
    | nodes => .text (String.ofList text) :: nodes

def pushScope (opening : Opening) (raw : List Char) (b : Builder) : Builder :=
  { b with scopes := ⟨opening, raw, [], []⟩ :: b.scopes }

def pushValue (content : List Char) (escaped : Bool) (b : Builder) : Except TagError Builder := do
  let i ← withinTag (Invocation.parse content)
  if i.aliases ≠ [] then throw .blockParamsOutsideBlock
  pure (b.push (.value i escaped))

def openBlock (t : Tag) (negated : Bool) (b : Builder) : Except TagError Builder := do
  let name ← firstToken t.content
  let i ← withinTag (Invocation.parse t.content)
  pure (b.pushScope (.block name.value i negated) t.raw)

def pushElse (content : List Char) (b : Builder) : Except TagError Builder :=
  match b.scopes with
  | ⟨.block name i negated, raw, body, alternates⟩ :: scopes => do
    if alternates.head?.any (·.condition.isNone) then throw .elseAfterElse
    let condition ←
      if content = [] then pure none else some <$> withinTag (Invocation.parse content)
    pure { b with
      scopes := ⟨.block name i negated, raw, body, ⟨condition, []⟩ :: alternates⟩ :: scopes }
  | _ => .error .elseOutsideBlock

/-- A finished branch, with its nodes in source order. -/
def finishAlternate (a : Alternate) : Alternate := { a with body := a.body.reverse }

/-- Puts a closed scope where it belongs. -/
def closeScope (s : OpenScope) (b : Builder) : Builder :=
  match s.opening with
  | .block name i negated =>
    b.push (.block {
      name := String.ofList name, invocation := i, negated, body := s.body.reverse
      alternates := s.alternates.reverse.map finishAlternate })
  | .partialBlock _ name i =>
    b.push (.partialTag { name, invocation := i, body := some s.body.reverse })
  | .definition name => { b with partials := (name, ⟨s.body.reverse, []⟩) :: b.partials }

def close (t : Tag) (b : Builder) : Except TagError Builder :=
  match b.scopes with
  | [] => .error .unexpectedClose
  | s :: scopes =>
    if s.opening.closeName = t.content then .ok ({ b with scopes }.closeScope s)
    else .error (.mismatchedClose t.raw s.raw)

/-- What a tag adds. -/
def apply (t : Tag) (b : Builder) : Except TagError Builder :=
  match t.kind with
  | .comment => .ok b
  | .quoted => .ok (b.pushText t.content)
  | .escapedValue => b.pushValue t.content true
  | .rawValue => b.pushValue t.content false
  | .opening => b.openBlock t false
  | .inverse => b.openBlock t true
  | .alternative => b.pushElse t.content
  | .closing => b.close t
  | .partialTag => do
    let (_, name, i) ← partialTag t.content
    pure (b.push (.partialTag { name, invocation := i, body := none }))
  | .partialBlock => do
    let (close, name, i) ← partialTag t.content
    pure (b.pushScope (.partialBlock close name i) t.raw)
  | .definition => do
    let name ← definedName t.content
    pure (b.pushScope (.definition name) t.raw)

/-- Adds the text before a tag, then the tag. -/
def step (b : Builder) (t : Tag) : Except ParseError Builder :=
  ((b.pushText t.before).apply t).mapError fun e => .tag e t.raw

/-- The finished template, unless a tag is still open. -/
def finish (b : Builder) : Except ParseError Template :=
  match b.scopes with
  | [] => .ok ⟨b.nodes.reverse, b.partials.reverse⟩
  | s :: _ => .error (.unclosedBlock s.raw)

end Builder

/-- Compiles a source. The first error in reading order is the one that is told. -/
def Template.compile (d : Delimiters) (source : String) : Except ParseError Template := do
  let scan := Tag.scan d source.toList
  let b ← scan.tags.foldlM Builder.step .empty
  let rest ← scan.rest
  (b.pushText rest).finish

end TextTemplate
