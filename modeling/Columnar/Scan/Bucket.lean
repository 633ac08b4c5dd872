import Columnar.Binary64

/-! The bucket of a row. A momentum has a magnitude; divided by the width and rounded, halves away
from zero, it gives a number of steps, and steps times width is the key. There is no key for a
magnitude that is not finite, nor where steps or key leave the range of 64-bit signed integers. -/

namespace Columnar

/-- `√((x² + y²) + z²)`, each operation rounded. -/
def magnitude (x y z : Binary64) : Binary64 :=
  let (x, y, z) := (x.toFloat, y.toFloat, z.toFloat)
  .ofFloat ((x * x + y * y) + z * z).sqrt

namespace Binary64

def round (x : Binary64) : Int :=
  let n : Nat := (2 * x.numerator + x.denominator) / (2 * x.denominator)
  if x.isNegative then -n else n

/-- The nearest whole number as a double again. From an exponent field of 1075 on, every double is
whole. -/
def rounded (x : Binary64) : Binary64 :=
  if 1075 ≤ x.exponentField then x
  else
    let n := (UInt64.ofNat x.round.natAbs).toFloat
    .ofFloat (if x.isNegative then -n else n)

/-- The whole part of a double. It is cut off at the bounds of the type, and zero for what is not a
number. -/
def toInt64 (x : Binary64) : Int64 :=
  if x.isNaN then 0
  else
    let n : Nat := x.numerator / x.denominator
    .ofIntClamp (if x.isNegative then -n else n)

end Binary64

def checkedMul (a b : Int64) : Option Int64 :=
  if a.toBitVec.smulOverflow b.toBitVec then none else some (a * b)

def lowestInt64 : Float := -(0x8000000000000000 : UInt64).toFloat

def highestInt64 : Float := (0x7fffffffffffffff : UInt64).toFloat

/-- A bucket width: positive, and itself a 64-bit signed integer. -/
structure BucketWidth where
  value : UInt64
  positive : 0 < value.toNat
  fits : value.toNat < 0x8000000000000000
  deriving DecidableEq

namespace BucketWidth

def ofUInt64? (value : UInt64) : Option BucketWidth :=
  if h : 0 < value.toNat ∧ value.toNat < 0x8000000000000000 then some ⟨value, h.1, h.2⟩ else none

def standard : BucketWidth := ⟨10000, by decide, by decide⟩

def quotient (w : BucketWidth) (magnitude : Binary64) : Binary64 :=
  .ofFloat (magnitude.toFloat / w.value.toFloat)

def keyOf (w : BucketWidth) (magnitude : Binary64) : Option Int :=
  if !magnitude.isFinite then none
  else
    let steps := (w.quotient magnitude).rounded
    -- The bounds come first, since the cast cuts off silently.
    if steps.toFloat < lowestInt64 ∨ highestInt64 ≤ steps.toFloat then none
    else (checkedMul steps.toInt64 w.value.toInt64).map Int64.toInt

def bucket (w : BucketWidth) (x y z : Binary64) : Option Int := w.keyOf (magnitude x y z)

end BucketWidth
end Columnar
