import TextTemplate.Number.Basic
import TextTemplate.Path

/-! What a tag's arguments say: literals, paths and helper calls. -/

namespace TextTemplate

inductive Literal
  | null
  | bool (b : Bool)
  | number (n : Number)
  | string (s : String)
deriving DecidableEq

mutual

/-- One argument. -/
inductive Reference
  | literal (value : Literal)
  | path (path : Path)
  | call (invocation : Invocation)

/-- The inside of a tag or of a group in parentheses. A call names its helper. Hash arguments stand
in source order, and a key may be repeated. The aliases are the names between the pipes. -/
structure Invocation where
  helper : Option String
  params : List Reference
  hash : List (String × Reference)
  aliases : List String

end

def Reference.identifier? : Reference → Option String
  | .path p => p.identifier?
  | _ => none

namespace Invocation

def empty : Invocation := ⟨none, [], [], []⟩

instance : Inhabited Invocation := ⟨empty⟩

/-- The first value written for a key. -/
def hashValue? (i : Invocation) (key : String) : Option Reference := i.hash.lookup key

end Invocation
end TextTemplate
