import Columnar.Text.Whole

/-! Paths to a setting. A path starts with a name; further names follow a point, and places in a list
stand in brackets, counted from the end if negative. A key that is written otherwise is one name as
it stands. -/

namespace Columnar.Settings

inductive Step
  | field (name : String)
  | place (index : Int)
  deriving Repr, DecidableEq

structure Path where
  first : String
  rest : List Step
  deriving Repr, DecidableEq

namespace Path

def isNamed (c : Char) : Bool :=
  'a' ≤ c && c ≤ 'z' || 'A' ≤ c && c ≤ 'Z' || '0' ≤ c && c ≤ '9' ||
    c = ' ' || c = '_' || c = '-'

def name? (cs : List Char) : Option (String × List Char) :=
  let letters := cs.takeWhile isNamed
  if letters.isEmpty then none else some (String.ofList letters, cs.drop letters.length)

def skipBlanks (cs : List Char) : List Char := cs.dropWhile fun c => c = ' ' || c = '\t'

def index? (cs : List Char) : Option (Int × List Char) :=
  let (negative, cs) : Bool × List Char := match skipBlanks cs with
    | '-' :: cs => (true, cs)
    | cs => (false, cs)
  let digits := cs.takeWhile fun c => (Text.digit? c).isSome
  match Text.natural? digits, skipBlanks (cs.drop digits.length) with
  | some n, ']' :: rest =>
    if negative then if n ≤ 0x8000000000000000 then some (-n, rest) else none
    else if n < 0x8000000000000000 then some (n, rest) else none
  | _, _ => none

/-- The steps that `cs` writes. Every step takes a character, so their number bounds `count`. -/
def steps? (count : Nat) (acc : List Step) (cs : List Char) : Option (List Step) :=
  match count, cs with
  | _, [] => some acc.reverse
  | count + 1, '.' :: cs =>
    match name? cs with
    | some (name, rest) => steps? count (.field name :: acc) rest
    | none => none
  | count + 1, '[' :: cs =>
    match index? cs with
    | some (index, rest) => steps? count (.place index :: acc) rest
    | none => none
  | _, _ => none

def ofKey (key : String) : Path :=
  match name? key.toList with
  | none => ⟨key, []⟩
  | some (first, rest) =>
    match steps? rest.length [] rest with
    | some steps => ⟨first, steps⟩
    | none => ⟨key, []⟩

end Path
end Columnar.Settings
