import TextTemplate.Number.Binary64

/-! The fewest decimal digits that read back as a given double. -/

namespace TextTemplate

/-- A positive number in scientific form: its first digit stands at `10 ^ exponent`. -/
structure Scientific where
  digits : List Char
  exponent : Int
deriving DecidableEq

namespace Shortest

/-- A positive fraction. -/
structure Ratio where
  num : Nat
  den : Nat

def Ratio.floor (r : Ratio) : Nat := r.num / r.den

/-- `r / 10 ^ e`. -/
def Ratio.shift (r : Ratio) (e : Int) : Ratio :=
  ⟨r.num * Nat.pow 10 (-e).toNat, r.den * Nat.pow 10 e.toNat⟩

/-- The power of ten at which the first digit of `r` stands. -/
def Ratio.leadingPlace (r : Ratio) : Int :=
  let guess : Int := (Nat.toDigits 10 r.num).length - (Nat.toDigits 10 r.den).length
  if 1 ≤ (r.shift guess).floor then guess else guess - 1

/-- The numbers that round to a mantissa, in quarters of its last bit: half a bit on either side,
a quarter below where the next smaller exponent begins. The ends belong to it when it is even. -/
structure Interval where
  below : Nat
  above : Nat
  closed : Bool

def intervalOf (d : Dyadic) : Interval :=
  let narrow := d.mantissa = Nat.pow 2 Binary64.mantissaBits ∧ Binary64.leastExponent < d.exponent
  ⟨4 * d.mantissa - (if narrow then 1 else 2), 4 * d.mantissa + 2, d.mantissa % 2 = 0⟩

/-- Whether `n * 10 ^ place` lies in the interval of numbers that round to the double. -/
def roundsTo (d : Dyadic) (n : Nat) (place : Int) : Bool :=
  let i := intervalOf d
  let e := d.exponent - 2
  let scale (k : Nat) : Nat := k * Nat.pow 2 e.toNat * Nat.pow 10 (-place).toNat
  let x := n * Nat.pow 10 place.toNat * Nat.pow 2 (-e).toNat
  if i.closed then scale i.below ≤ x && x ≤ scale i.above
  else scale i.below < x && x < scale i.above

def value (d : Dyadic) : Ratio :=
  ⟨d.mantissa * Nat.pow 2 d.exponent.toNat, Nat.pow 2 (-d.exponent).toNat⟩

/-- A multiple of `10 ^ place` that rounds to the double, if one of its two neighbours does:
of two the nearer, of two equally near the even one. -/
def neighbour? (d : Dyadic) (place : Int) : Option Nat :=
  let r := (value d).shift place
  let low := r.floor
  let twice := 2 * (r.num % r.den)
  match roundsTo d low place, roundsTo d (low + 1) place with
  | true, true => some (if twice < r.den ∨ (twice = r.den ∧ low % 2 = 0) then low else low + 1)
  | true, false => some low
  | false, true => some (low + 1)
  | false, false => none

/-- The first hit among the places at `place` and below it, `fuel` of them. -/
def search (d : Dyadic) : (fuel : Nat) → (place : Int) → Nat × Int
  | 0, place => ((value d).shift place |>.floor, place)
  | fuel + 1, place =>
    match neighbour? d place with
    | some n => (n, place)
    | none => search d fuel (place - 1)

/-- Seventeen digits always read back. -/
def scientific (d : Dyadic) : Scientific :=
  let (n, place) := search d 17 (value d).leadingPlace
  let digits := Nat.toDigits 10 n
  { digits := (digits.reverse.dropWhile (· = '0')).reverse
    exponent := place + digits.length - 1 }

end Shortest
end TextTemplate
