import TextTemplate.Number.Shortest

/-! Numbers of template data, and how they are written. -/

namespace TextTemplate

/-- Whole numbers and doubles stay apart: `1` and `1.0` are two numbers. -/
inductive Number
  | int (n : Int)
  | double (x : Float)
deriving DecidableEq

/-- The powers of ten at the first digit for which a number is written with all its places. -/
structure DecimalLayout where
  leastPositional : Int
  mostPositional : Int

namespace Number

/-- Doubles from `0.00001` up to and without `10 ^ 16` are written with a point, the others with
an exponent that shows its sign. -/
def layout : DecimalLayout := ⟨-5, 15⟩

def zeros (n : Nat) : List Char := List.replicate n '0'

/-- A positive number with a point; at least one digit stands on either side. -/
def positional (s : Scientific) : List Char :=
  let whole := (s.exponent + 1).toNat
  let padded := zeros (-s.exponent).toNat ++ s.digits ++ zeros (whole - s.digits.length)
  let (before, behind) := padded.splitAt (max whole 1)
  before ++ '.' :: (if behind = [] then ['0'] else behind)

/-- A positive number with one digit before the point and an exponent. -/
def exponential (s : Scientific) : List Char :=
  let mantissa := match s.digits with
    | c :: d :: ds => c :: '.' :: d :: ds
    | ds => ds
  let sign := if s.exponent < 0 then '-' else '+'
  mantissa ++ 'e' :: sign :: Nat.toDigits 10 s.exponent.natAbs

def writeScientific (l : DecimalLayout) (s : Scientific) : List Char :=
  if l.leastPositional ≤ s.exponent ∧ s.exponent ≤ l.mostPositional then positional s
  else exponential s

def doubleText (x : Float) : List Char :=
  let d := Binary64.parts x
  (if d.negative then ['-'] else []) ++
    (if d.mantissa = 0 then ['0', '.', '0'] else writeScientific layout (Shortest.scientific d))

def intText (n : Int) : List Char :=
  (if n < 0 then ['-'] else []) ++ Nat.toDigits 10 n.natAbs

/-- The number as data writes it: a double always has a point or an exponent. -/
def text : Number → String
  | int n => String.ofList (intText n)
  | double x => String.ofList (doubleText x)

/-- The whole number that a double is, if it has no fraction. -/
def whole? (x : Float) : Option Int :=
  let d := Binary64.parts x
  let n := d.mantissa * Nat.pow 2 d.exponent.toNat
  let unit := Nat.pow 2 (-d.exponent).toNat
  if n % unit = 0 then some (if d.negative then -(n / unit : Nat) else (n / unit : Nat)) else none

/-- The number as a template shows it: below `10 ^ 15` a double without a fraction has no point. -/
def display : Number → String
  | int n => text (int n)
  | double x =>
    match whole? x with
    | some n => if n.natAbs < Nat.pow 10 15 then text (int n) else text (double x)
    | none => text (double x)

def isZero : Number → Bool
  | int n => n = 0
  | double x => (Binary64.parts x).mantissa = 0

/-- The nearest double. -/
def toDouble : Number → Float
  | int n => if n < 0 then -(UInt64.ofNat n.natAbs).toFloat else (UInt64.ofNat n.natAbs).toFloat
  | double x => x

end Number
end TextTemplate
