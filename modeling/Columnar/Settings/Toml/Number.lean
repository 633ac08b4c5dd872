import Columnar.Settings.Toml.Token

/-! Numbers of a TOML text. Single underscores may stand between digits, and whole numbers have 64
bits with a sign. A fraction and the positive sign of an exponent are tokens of their own. A decimal
number is rounded to the nearest double, which has to be finite. -/

namespace Columnar.Settings.Toml

def grouped (base : Nat) : List Char → Option (List Char × List Char)
  | [] => none
  | c :: cs =>
    if (digitValue? base c).isNone then none
    else
      match cs with
      | '_' :: rest => (grouped base rest).map fun (ds, left) => (c :: ds, left)
      | d :: rest =>
        if (digitValue? base d).isSome then
          (grouped base (d :: rest)).map fun (ds, left) => (c :: ds, left)
        else some ([c], d :: rest)
      | [] => some ([c], [])

def sign : List Char → Bool × List Char
  | '-' :: cs => (true, cs)
  | cs => (false, cs)

def wholePart (cs : List Char) : Option (Bool × List Char × List Char) :=
  let (negative, cs) := sign cs
  match grouped 10 cs with
  | some ('0' :: _ :: _, _) | none => none
  | some (ds, rest) => some (negative, ds, rest)

def exponent (cs : List Char) (ts : List Token) : Option (Int × List Token) :=
  match cs with
  | [] => some (0, ts)
  | e :: cs =>
    if e = 'e' ∨ e = 'E' then
      let (negative, digits, ts) : Bool × List Char × List Token :=
        match cs, ts with
        | [], .plus :: .word ds :: ts => (false, ds, ts)
        | cs, ts => let (negative, cs) := sign cs; (negative, cs, ts)
      match grouped 10 digits with
      | some (ds, []) =>
        let n : Int := numberOf 10 ds
        some (if negative then -n else n, ts)
      | _ => none
    else none

def decimal (cs : List Char) (fraction : Option (List Char)) (ts : List Token) :
    Option (Data × List Token) := do
  let (negative, whole, rest) ← wholePart cs
  let (places, rest) ← match fraction with
    | none => some ([], rest)
    | some ds => if rest.isEmpty then grouped 10 ds else none
  let (power, ts) ← exponent rest ts
  let x := Decimal.nearest (numberOf 10 (whole ++ places)) (power - places.length)
  if x.isFinite then some (.float (if negative then Decimal.negated x else x), ts) else none

def bounded (negative : Bool) (n : Nat) : Option Data :=
  if negative then if n ≤ 0x8000000000000000 then some (.integer (-n)) else none
  else if n < 0x8000000000000000 then some (.integer n) else none

def inBase (base : Nat) (cs : List Char) : Option Data :=
  match grouped base cs with
  | some (ds, []) => bounded false (numberOf base ds)
  | _ => none

def inTen (cs : List Char) : Option Data :=
  match wholePart cs with
  | some (negative, ds, []) => bounded negative (numberOf 10 ds)
  | _ => none

def notANumber : Binary64 := ⟨0x7ff8000000000000⟩

def number (cs : List Char) (ts : List Token) : Option (Data × List Token) :=
  let alone (d : Option Data) := d.map fun d => (d, ts)
  match cs with
  | '0' :: 'x' :: ds => alone (inBase 16 ds)
  | '0' :: 'o' :: ds => alone (inBase 8 ds)
  | '0' :: 'b' :: ds => alone (inBase 2 ds)
  | _ =>
    if 'e' ∈ cs ∨ 'E' ∈ cs then decimal cs none ts
    else
      match ts with
      | .period :: .word ds :: rest => decimal cs (some ds) rest
      | .period :: _ => none
      | _ =>
        match sign cs with
        | (negative, ['i', 'n', 'f']) =>
          some (.float (if negative then Decimal.negated Decimal.infinity else Decimal.infinity), ts)
        | (_, ['n', 'a', 'n']) => some (.float notANumber, ts)
        | _ => alone (inTen cs)

end Columnar.Settings.Toml
