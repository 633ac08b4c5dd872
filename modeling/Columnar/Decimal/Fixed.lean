import Columnar.Binary64

/-! Decimals with a fixed number of places. The exact binary value is rounded once, to the nearest
decimal with so many places, and a value halfway between two of them goes to the even one. -/

namespace Columnar.Decimal

def roundHalfEven (num den : Nat) : Nat :=
  let q := num / den
  let r := num % den
  if 2 * r < den then q
  else if den < 2 * r then q + 1
  else if q % 2 = 0 then q else q + 1

def fixed (places : Nat) (x : Binary64) : String :=
  if x.isNaN then "NaN"
  else
    let sign := if x.isNegative then "-" else ""
    if !x.isFinite then sign ++ "inf"
    else
      let scale := Nat.pow 10 places
      let n := roundHalfEven (x.numerator * scale) x.denominator
      let part := toString (n % scale)
      sign ++ toString (n / scale) ++ "." ++ "".pushn '0' (places - part.length) ++ part

end Columnar.Decimal
