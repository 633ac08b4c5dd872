/-! Whole numbers written in decimal digits, as texts from outside give them. A positive sign may stand
in front, zeros too, and nothing else besides the digits. -/

namespace Columnar.Text

def digit? (c : Char) : Option Nat :=
  if '0' ≤ c ∧ c ≤ '9' then some (c.toNat - '0'.toNat) else none

def digits? (n : Nat) : List Char → Option Nat
  | [] => some n
  | c :: cs => (digit? c).bind fun d => digits? (10 * n + d) cs

def natural? : List Char → Option Nat
  | [] => none
  | cs => digits? 0 cs

def unsigned? (s : String) : Option Nat :=
  match s.toList with
  | '+' :: cs => natural? cs
  | cs => natural? cs

def signed? (s : String) : Option Int :=
  match s.toList with
  | '-' :: cs => (natural? cs).map fun n => -(n : Int)
  | _ => (unsigned? s).map Int.ofNat

example : unsigned? "+07" = some 7 := by decide +kernel
example : unsigned? "" = none ∧ unsigned? "+" = none ∧ unsigned? " 5" = none := by decide +kernel

end Columnar.Text
