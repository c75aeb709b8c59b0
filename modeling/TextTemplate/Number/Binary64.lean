/-! Doubles as exact fractions: taking one apart, and the double nearest to a fraction. -/

namespace TextTemplate

/-- The number `mantissa * 2 ^ exponent`, with a sign. -/
structure Dyadic where
  negative : Bool
  mantissa : Nat
  exponent : Int
deriving DecidableEq

namespace Binary64

/-- The exponent of the smallest positive double. -/
def leastExponent : Int := -1074

def mantissaBits : Nat := 52

/-- Sign, mantissa and exponent of a finite double. -/
def parts (x : Float) : Dyadic :=
  let bits := x.toBits.toNat
  let exponent := bits / Nat.pow 2 mantissaBits % Nat.pow 2 11
  let fraction := bits % Nat.pow 2 mantissaBits
  { negative := Nat.pow 2 63 ≤ bits
    mantissa := if exponent = 0 then fraction else Nat.pow 2 mantissaBits + fraction
    exponent := leastExponent + ((exponent - 1 : Nat) : Int) }

/-- The quotient of two numbers rounded to the nearest whole number, a half to the even one. -/
def roundDiv (num den : Nat) : Nat :=
  let q := num / den
  let twice := 2 * (num % den)
  if den < twice ∨ (twice = den ∧ q % 2 = 1) then q + 1 else q

/-- Numerator and denominator of `num / den / 2 ^ e`. -/
def scaled (num den : Nat) (e : Int) : Nat × Nat :=
  (num * Nat.pow 2 (-e).toNat, den * Nat.pow 2 e.toNat)

/-- The exponent at which the mantissa of `num / den` has as many bits as a double keeps. -/
def exponentOf (num den : Nat) : Int :=
  let low := (num.log2 : Int) - den.log2 - mantissaBits - 1
  let (n, d) := scaled num den low
  max leastExponent (if Nat.pow 2 (mantissaBits + 1) ≤ n / d then low + 1 else low)

/-- The bits of the double nearest to `num / den`, a tie going to the even mantissa; none when it
is too large for a finite double. A mantissa rounded up past its bits carries into the exponent. -/
def nearestBits? (num den : Nat) : Option Nat :=
  if num = 0 then some 0
  else
    let e := exponentOf num den
    let (n, d) := scaled num den e
    let bits := (e - leastExponent).toNat * Nat.pow 2 mantissaBits + roundDiv n d
    if bits < 2047 * Nat.pow 2 mantissaBits then some bits else none

/-- The double nearest to `digits * 10 ^ exponent`. Numbers of more than 310 places, or that
start more than 330 places behind the point, need no arithmetic. -/
def nearest? (negative : Bool) (digits : Nat) (exponent : Int) : Option Float :=
  let places : Int := (Nat.toDigits 10 digits).length + exponent
  let bits? :=
    if digits = 0 ∨ places < -330 then some 0
    else if 310 < places then none
    else nearestBits? (digits * Nat.pow 10 exponent.toNat) (Nat.pow 10 (-exponent).toNat)
  bits?.map fun bits =>
    Float.ofBits (UInt64.ofNat (if negative then Nat.pow 2 63 + bits else bits))

end Binary64
end TextTemplate
