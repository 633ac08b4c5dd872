import Columnar.Decimal.Shortest

/-! The double nearest to a decimal, ties to the even significand. Decimals outside of the range of
doubles give infinity or zero without being expanded. -/

namespace Columnar.Decimal

def infinity : Binary64 := ⟨0x7ff0000000000000⟩
def zero : Binary64 := ⟨0⟩

def nearest (digits : Nat) (unit : Int) : Binary64 :=
  let point := unit + digitCount digits
  if digits = 0 ∨ point < -330 then zero
  else if 310 < point then infinity
  else .ofFloat (.ofScientific digits (decide (unit < 0)) unit.natAbs)

def negated (x : Binary64) : Binary64 := ⟨x.bits ^^^ 0x8000000000000000⟩

end Columnar.Decimal
