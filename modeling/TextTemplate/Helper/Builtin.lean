import TextTemplate.Helper.Basic
import TextTemplate.Value.Access

/-! The helpers that every engine starts with. -/

namespace TextTemplate.Helper

/-- The item of an array at a position, or what the key's text reads in any other container. A
position is a whole number that is not negative. -/
def memberOf? (container key : Value) : Option Value :=
  match container, key with
  | .array items, .number (.int n) => if n < 0 then none else items[n.toNat]?
  | .array _, .number (.double _) => none
  | container, key => container.drill? [key.display]

def lookup : Helper := fun c =>
  match c.args with
  | container :: key :: _ => pure (.value ((memberOf? container key).getD .null))
  | _ => Run.fail (.helper c.name "expects a container and a key")

/-- Notes its arguments in the log, and shows nothing. -/
def log : Helper := fun c => do
  Run.log (String.intercalate " " (c.args.map Value.display))
  pure .nothing

def builtin : Dict Helper := [("lookup", lookup), ("log", log)]

end TextTemplate.Helper
