import TextTemplate.Number.Basic

/-! Numbers as templates write them. -/

namespace TextTemplate.Number

def digitsValue (ds : List Char) : Nat := ds.foldl (fun n c => 10 * n + (c.toNat - '0'.toNat)) 0

/-- The exponent that ends a numeral: nothing, or a letter, perhaps a sign, and digits. -/
def exponentOf? (s : List Char) : Option Int :=
  let value? (ds : List Char) : Option Int :=
    if ds ≠ [] ∧ ds.all Char.isDigit then some (digitsValue ds) else none
  match s with
  | [] => some 0
  | c :: s =>
    if c = 'e' ∨ c = 'E' then
      match s with
      | '-' :: ds => (value? ds).map (- ·)
      | '+' :: ds => value? ds
      | ds => value? ds
    else none

/-- A numeral with digits before a point that may be left out, digits behind it and an exponent. -/
def double? (negative : Bool) (s : List Char) : Option Float :=
  let before := s.takeWhile Char.isDigit
  let (behind, exponent) := match s.dropWhile Char.isDigit with
    | '.' :: s => (s.takeWhile Char.isDigit, s.dropWhile Char.isDigit)
    | s => ([], s)
  (exponentOf? exponent).bind fun e =>
    Binary64.nearest? negative (digitsValue (before ++ behind)) (e - behind.length)

/-- Reads a numeral that starts with a digit, behind a sign or not. Digits alone are a whole number
when it fits into 64 bits with a sign; every other numeral is the nearest double, if it is finite. -/
def ofNumeral? (s : List Char) : Option Number :=
  let (negative, digits) := match s with
    | '-' :: s => (true, s)
    | s => (false, s)
  if ¬(digits.head?.any Char.isDigit) then none
  else
    let n : Int := if negative then -digitsValue digits else digitsValue digits
    let fits := Int64.minValue.toInt ≤ n ∧ n ≤ Int64.maxValue.toInt
    if digits.all Char.isDigit ∧ fits then some (.int n)
    else (double? negative digits).map .double

end TextTemplate.Number
