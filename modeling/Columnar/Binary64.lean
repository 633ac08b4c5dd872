/-! Double-precision numbers as their 64 bits: one sign, eleven exponent and fifty-two fraction bits.
A finite number is `± significand · 2 ^ (exponent - 1074)`, and `numerator` over `denominator` is its
absolute value as a quotient of natural numbers. -/

namespace Columnar

structure Binary64 where
  bits : UInt64
  deriving Repr, DecidableEq, Inhabited

namespace Binary64

def exponentField (x : Binary64) : Nat := (x.bits >>> 52).toNat % 2048
def fractionField (x : Binary64) : Nat := x.bits.toNat % 0x10000000000000

def isNegative (x : Binary64) : Bool := x.bits >>> 63 = 1
def isFinite (x : Binary64) : Bool := x.exponentField ≠ 2047
def isNaN (x : Binary64) : Bool := x.exponentField = 2047 && x.fractionField ≠ 0

def significand (x : Binary64) : Nat :=
  if x.exponentField = 0 then x.fractionField else 0x10000000000000 + x.fractionField

def exponent (x : Binary64) : Nat := x.exponentField - 1

def numerator (x : Binary64) : Nat := x.significand * Nat.pow 2 (x.exponent - 1074)
def denominator (x : Binary64) : Nat := Nat.pow 2 (1074 - x.exponent)

theorem fractionField_lt (x : Binary64) : x.fractionField < 0x10000000000000 :=
  Nat.mod_lt _ (by decide)

theorem exponentField_lt (x : Binary64) : x.exponentField < 2048 := Nat.mod_lt _ (by decide)

theorem significand_lt (x : Binary64) : x.significand < 0x20000000000000 := by
  have hf := x.fractionField_lt
  unfold significand
  split <;> omega

theorem isFinite_iff (x : Binary64) : x.isFinite = true ↔ x.exponentField ≠ 2047 :=
  decide_eq_true_iff

theorem isNegative_iff (x : Binary64) :
    x.isNegative = true ↔ x.bits.toNat / 0x8000000000000000 = 1 := by
  simp [isNegative, ← UInt64.toNat_inj, Nat.shiftRight_eq_div_pow]

theorem denominator_pos (x : Binary64) : 0 < x.denominator := Nat.two_pow_pos _

def toFloat (x : Binary64) : Float := .ofBits x.bits
def ofFloat (x : Float) : Binary64 := ⟨x.toBits⟩

def ofUInt64 (n : UInt64) : Binary64 := ofFloat n.toFloat

/-- Equality of values read back: one pattern for one pattern, and any not-a-number for another. -/
def Same (x y : Binary64) : Prop := x = y ∨ (x.isNaN ∧ y.isNaN)

end Binary64
end Columnar
