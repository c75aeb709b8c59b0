import TextTemplate.Invocation.Basic

/-! Compiled templates. -/

namespace TextTemplate

/-- What a block does, by the name of its helper. Without a helper it is a plain section. -/
inductive BlockKind
  | ifTrue
  | ifFalse
  | each
  | withValue
  | plain
  | helper
deriving DecidableEq

def BlockKind.of (i : Invocation) : BlockKind :=
  match i.helper with
  | none => .plain
  | some name =>
    if name = "if" then .ifTrue
    else if name = "unless" then .ifFalse
    else if name = "each" then .each
    else if name = "with" then .withValue
    else .helper

/-- How a partial tag names its template. -/
inductive PartialName
  | fixed (name : String)
  | computed (call : Invocation)

mutual

inductive Node
  | text (s : String)
  | value (invocation : Invocation) (escaped : Bool)
  | block (block : Block)
  | partialTag (tag : PartialTag)

/-- The name is the first word of the opening tag. A negated block shows its body when its
condition fails. -/
structure Block where
  name : String
  invocation : Invocation
  negated : Bool
  body : List Node
  alternates : List Alternate

/-- One `else` branch; without a condition it is the last. -/
structure Alternate where
  condition : Option Invocation
  body : List Node

/-- The body is what the partial may show as its partial block, or else the fallback. -/
structure PartialTag where
  name : PartialName
  invocation : Invocation
  body : Option (List Node)

end

/-- Partials are defined by a template for the time it is rendered, in source order. -/
structure Template where
  nodes : List Node
  partials : List (String × Template)

instance : Inhabited Template := ⟨⟨[], []⟩⟩

def Node.isText : Node → Bool
  | text _ => true
  | _ => false

def Template.isStatic (t : Template) : Bool := t.nodes.all Node.isText

end TextTemplate
