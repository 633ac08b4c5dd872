import Columnar.Decimal.Nearest

/-! Structured data as a settings file holds it: plain values, lists of data, and records of named
data in the order of the file. -/

namespace Columnar.Settings

inductive Scalar
  | null
  | boolean (b : Bool)
  | integer (n : Int)
  | float (x : Binary64)
  | text (s : String)
  deriving Repr, DecidableEq

inductive Data
  | scalar (s : Scalar)
  | list (items : List Data)
  | record (fields : List (String × Data))

namespace Data

def null : Data := .scalar .null
def boolean (b : Bool) : Data := .scalar (.boolean b)
def integer (n : Int) : Data := .scalar (.integer n)
def float (x : Binary64) : Data := .scalar (.float x)
def text (s : String) : Data := .scalar (.text s)

end Data

def digitValue? (base : Nat) (c : Char) : Option Nat :=
  let v :=
    if '0' ≤ c ∧ c ≤ '9' then c.toNat - '0'.toNat
    else if 'a' ≤ c ∧ c ≤ 'f' then c.toNat - 'a'.toNat + 10
    else if 'A' ≤ c ∧ c ≤ 'F' then c.toNat - 'A'.toNat + 10
    else base
  if v < base then some v else none

/-- The number written by digits of a base; characters that are no digits count zero. -/
def numberOf (base : Nat) (digits : List Char) : Nat :=
  digits.foldl (fun n c => base * n + (digitValue? base c).getD 0) 0

def charOf? (digits : List Char) : Option Char :=
  if digits.all fun c => (digitValue? 16 c).isSome then
    let n := numberOf 16 digits
    if h : n.isValidChar then some (Char.ofNatAux n h)
    else none
  else none

end Columnar.Settings
