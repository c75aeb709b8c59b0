import TextTemplate.Dict
import TextTemplate.Number.Basic

/-! Template data. -/

namespace TextTemplate

inductive Value
  | null
  | bool (b : Bool)
  | number (n : Number)
  | string (s : String)
  | array (items : List Value)
  | object (entries : List (String × Value))

namespace Value

instance : Inhabited Value := ⟨null⟩

/-- Whether a condition on the value holds. Every number counts as true. -/
def isTruthy : Value → Bool
  | null => false
  | bool b => b
  | number _ => true
  | string s => s ≠ ""
  | array items => !items.isEmpty
  | object entries => !entries.isEmpty

def isZero : Value → Bool
  | number n => n.isZero
  | _ => false

def isNull : Value → Bool
  | null => true
  | _ => false

end Value
end TextTemplate
