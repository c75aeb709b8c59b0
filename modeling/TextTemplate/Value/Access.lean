import TextTemplate.Number.Numeral
import TextTemplate.Value.Basic

/-! Reading inside values: properties of objects, items of arrays, and lengths. -/

namespace TextTemplate.Value

/-- The position that a key spells: decimal digits, behind a plus or not. -/
def position? (key : String) : Option Nat :=
  let digits := match key.toList with
    | '+' :: ds => ds
    | ds => ds
  if digits ≠ [] ∧ digits.all Char.isDigit then some (Number.digitsValue digits) else none

/-- A property of an object or an item of an array. -/
def child? (v : Value) (key : String) : Option Value :=
  match v with
  | object entries => Dict.get? entries key
  | array items => (position? key).bind (items[·]?)
  | _ => none

/-- The number of items of an array or characters of a string. -/
def measure? : Value → Option Nat
  | array items => some items.length
  | string s => some s.length
  | _ => none

/-- Reads one key after the other. At the end, `length` measures what has no such property. -/
def drill? (v : Value) : List String → Option Value
  | [] => some v
  | [key] =>
    (v.child? key).orElse fun _ =>
      if key = "length" then v.measure?.map fun n => number (.int n) else none
  | key :: keys => (v.child? key).bind fun w => drill? w keys

/-- The items of an array or an object with their keys. -/
def items : Value → List (Value × Value)
  | array items => items.zipIdx.map fun (v, i) => (.number (.int i), v)
  | object entries => entries.map fun (k, v) => (.string k, v)
  | _ => []

def isArray : Value → Bool
  | array _ => true
  | _ => false

end TextTemplate.Value
