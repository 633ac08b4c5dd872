import Columnar.Binary64

/-! The shortest decimal of a double. The reals that round to a double form an interval around it,
with its ends if the significand is even. On the grids of one, two, … significant digits the two
neighbours of the double are tried; the first grid with a neighbour inside the interval gives the
digits, of two neighbours the nearer one, and at equal distance the upper one. -/

namespace Columnar.Decimal

def digitCount (n : Nat) : Nat := if n < 10 then 1 else digitCount (n / 10) + 1
termination_by n

structure Digits where
  digits : Nat
  unit : Int
  deriving Repr, DecidableEq

/-- The power of ten with `10 ^ (p - 1) ≤ num / den < 10 ^ p`, for positive `num` and `den`. -/
def leadingPower (num den : Nat) : Int :=
  if den ≤ num then digitCount (num / den)
  else 1 - (digitCount ((num + den - 1) / num - 1) : Nat)

def scaled (num den : Nat) (unit : Int) : Nat × Nat :=
  (num * Nat.pow 10 (-unit).toNat, den * Nat.pow 10 unit.toNat)

/-- The reals that round to a positive finite double, as quarters of its last place. -/
structure Interval where
  below : Nat
  value : Nat
  above : Nat
  closed : Bool
  den : Nat

/-- At the least significand of a binade the neighbour below is only half as far away. -/
def Interval.of (x : Binary64) : Interval :=
  let m := x.significand
  let scale := Nat.pow 2 (x.exponent - 1074)
  let narrow := m = 0x10000000000000 ∧ 1 < x.exponentField
  { below := (4 * m - if narrow then 1 else 2) * scale
    value := 4 * m * scale
    above := (4 * m + 2) * scale
    closed := m % 2 = 0
    den := 4 * x.denominator }

def Interval.holds (i : Interval) (n : Nat) (unit : Int) : Bool :=
  let lower := scaled i.below i.den unit
  let upper := scaled i.above i.den unit
  if i.closed then lower.1 ≤ n * lower.2 && n * upper.2 ≤ upper.1
  else lower.1 < n * lower.2 && n * upper.2 < upper.1

def Interval.nearest? (i : Interval) (unit : Int) : Option Nat :=
  let (num, den) := scaled i.value i.den unit
  let lower := num / den
  match i.holds lower unit, i.holds (lower + 1) unit with
  | true, true => some (if 2 * (num % den) < den then lower else lower + 1)
  | true, false => some lower
  | false, true => some (lower + 1)
  | false, false => none

/-- The grids from `digits` significant digits on, `more` of them. A neighbour that carries into one
more digit is a power of ten. -/
def Interval.search (i : Interval) (point : Int) (digits : Nat) : Nat → Digits
  | 0 => let (num, den) := scaled i.value i.den (point - digits); ⟨num / den, point - digits⟩
  | more + 1 =>
    match i.nearest? (point - digits) with
    | some n => if n = Nat.pow 10 digits then ⟨1, point⟩ else ⟨n, point - digits⟩
    | none => search i point (digits + 1) more

/-- The shortest decimal of a positive finite double; seventeen digits always suffice. -/
def shortest (x : Binary64) : Digits :=
  let i := Interval.of x
  i.search (leadingPower i.value i.den) 1 17

/-- Positional notation: no exponent, no point after a whole number, one zero before a leading
point. -/
def positional (digits : Nat) (unit : Int) : String :=
  let text := toString digits
  if 0 ≤ unit then text ++ "".pushn '0' unit.toNat
  else
    let places := (-unit).toNat
    let padded := "".pushn '0' (places + 1 - text.length) ++ text
    let chars := padded.toList
    let whole := chars.take (chars.length - places)
    String.ofList whole ++ "." ++ String.ofList (chars.drop whole.length)

def text (x : Binary64) : String :=
  if x.isNaN then "NaN"
  else
    let sign := if x.isNegative then "-" else ""
    if !x.isFinite then sign ++ "inf"
    else if x.significand = 0 then sign ++ "0"
    else
      let d := shortest x
      sign ++ positional d.digits d.unit

end Columnar.Decimal
