import Columnar.Settings.Data

/-! Reading JSON. The grammar is followed strictly: nothing after the value, no leading zeros, no
control characters inside texts, surrogates only in pairs, at most 127 levels. Integers keep their
value while they fit 64 bits with a sign, and larger ones are doubles; other numbers are built from
their first digits, as many as fit 64 bits, and one power of ten. Of two fields with one name the
later counts. -/

namespace Columnar.Settings.Json

def skip : List Char → List Char
  | [] => []
  | c :: cs => if c = ' ' ∨ c = '\n' ∨ c = '\t' ∨ c = '\r' then skip cs else c :: cs

def inRange (low high n : Nat) : Bool := low ≤ n && n ≤ high

def escape? : Char → Option Char
  | '"' => some '"'
  | '\\' => some '\\'
  | '/' => some '/'
  | 'b' => some '\x08'
  | 'f' => some '\x0c'
  | 'n' => some '\n'
  | 'r' => some '\r'
  | 't' => some '\t'
  | _ => none

/-- The rest of a text after its opening mark; `lead` is a leading surrogate that waits for its
other half. -/
def text (acc : List Char) (lead : Option Nat) : List Char → Option (String × List Char)
  | [] => none
  | '\\' :: 'u' :: a :: b :: c :: d :: cs =>
    if !([a, b, c, d].all fun x => (digitValue? 16 x).isSome) then none
    else
      let n := numberOf 16 [a, b, c, d]
      match lead with
      | some high =>
        if inRange 0xDC00 0xDFFF n then
          text (Char.ofNat (0x10000 + (high - 0xD800) * 0x400 + (n - 0xDC00)) :: acc) none cs
        else none
      | none =>
        if inRange 0xD800 0xDBFF n then text acc (some n) cs
        else if inRange 0xDC00 0xDFFF n then none
        else text (Char.ofNat n :: acc) none cs
  | '\\' :: e :: cs =>
    match lead, escape? e with
    | none, some c => text (c :: acc) none cs
    | _, _ => none
  | c :: cs =>
    if lead.isSome ∨ c.toNat < 0x20 ∨ c = '\\' then none
    else if c = '"' then some (String.ofList acc.reverse, cs)
    else text (c :: acc) none cs

/-- `significand · 10 ^ exponent` by one multiplication or division, after steps of 308 down for
exponents below that. A result beyond the doubles is refused. -/
def scale (significand : Nat) (exponent : Int) : Option Float :=
  let f := (UInt64.ofNat significand).toFloat
  let ten (k : Nat) : Float := (Decimal.nearest 1 k).toFloat
  if significand = 0 then some 0.0
  else if 308 < exponent then none
  else if 0 ≤ exponent then
    let r := f * ten exponent.toNat
    if (Binary64.ofFloat r).isFinite then some r else none
  else if -308 ≤ exponent then some (f / ten (-exponent).toNat)
  else if -616 ≤ exponent then some (f / ten 308 / ten (-exponent - 308).toNat)
  else some 0.0

def isDigit (c : Char) : Bool := '0' ≤ c && c ≤ '9'

/-- Takes digits into a significand below `2 ^ 64`. Counted are the digits taken, and the digits
passed over once the significand is full. -/
def digits (n taken passed : Nat) (full : Bool) : List Char → (Nat × Nat × Nat × Bool) × List Char
  | [] => ((n, taken, passed, full), [])
  | c :: cs =>
    if !isDigit c then ((n, taken, passed, full), c :: cs)
    else
      let m := 10 * n + (c.toNat - '0'.toNat)
      if full || UInt64.size ≤ m then digits n taken (passed + 1) true cs
      else digits m (taken + 1) passed false cs

def signed (negative : Bool) (x : Float) : Data :=
  let b := Binary64.ofFloat x
  .float (if negative then Decimal.negated b else b)

def exponent (negative : Bool) (significand : Nat) (shift : Int) :
    List Char → Option (Data × List Char)
  | [] => (scale significand shift).map fun x => (signed negative x, [])
  | e :: cs =>
    if e = 'e' ∨ e = 'E' then
      let (down, cs) : Bool × List Char :=
        match cs with
        | '+' :: cs => (false, cs)
        | '-' :: cs => (true, cs)
        | cs => (false, cs)
      let power := cs.takeWhile isDigit
      if power.isEmpty then none
      else
        let n : Int := numberOf 10 power
        (scale significand (if down then shift - n else shift + n)).map fun x =>
          (signed negative x, cs.drop power.length)
    else (scale significand shift).map fun x => (signed negative x, e :: cs)

def number (negative : Bool) (cs : List Char) : Option (Data × List Char) :=
  let leadingZero : Bool := match cs with
    | '0' :: c :: _ => isDigit c
    | _ => false
  let ((n, taken, passed, full), rest) := digits 0 0 0 false cs
  if taken = 0 ∨ leadingZero then none
  else
    match rest with
    | '.' :: cs =>
      let ((m, taken, dropped, _), rest) := digits n 0 0 false cs
      if taken + dropped = 0 then none
      else exponent negative m ((passed : Int) - taken) rest
    | c :: cs =>
      if c = 'e' ∨ c = 'E' ∨ full then exponent negative n passed (c :: cs)
      else some (whole n, c :: cs)
    | [] => if full then exponent negative n passed [] else some (whole n, [])
where
  whole (n : Nat) : Data :=
    let fits : Bool := if negative then 0 < n && n ≤ 0x8000000000000000 else n < 0x8000000000000000
    if fits then .integer (if negative then -n else n)
    else signed negative (UInt64.ofNat n).toFloat

def putLast (fields : List (String × Data)) (name : String) (d : Data) : List (String × Data) :=
  fields.filter (fun f => f.1 ≠ name) ++ [(name, d)]

mutual

/-- One value with at most `levels` levels inside. Two calls take at least one character, so twice
their number bounds `steps`. -/
def value (steps levels : Nat) (cs : List Char) : Option (Data × List Char) :=
  match steps with
  | 0 => none
  | steps + 1 =>
    match skip cs with
    | 'n' :: 'u' :: 'l' :: 'l' :: cs => some (.null, cs)
    | 't' :: 'r' :: 'u' :: 'e' :: cs => some (.boolean true, cs)
    | 'f' :: 'a' :: 'l' :: 's' :: 'e' :: cs => some (.boolean false, cs)
    | '"' :: cs => (text [] none cs).map fun (s, rest) => (.text s, rest)
    | '-' :: cs => number true cs
    | '[' :: cs =>
      match levels, skip cs with
      | 0, _ => none
      | _ + 1, ']' :: cs => some (.list [], cs)
      | levels + 1, cs => items steps levels #[] cs
    | '\x7b' :: cs =>
      match levels, skip cs with
      | 0, _ => none
      | _ + 1, '\x7d' :: cs => some (.record [], cs)
      | levels + 1, cs => fields steps levels [] cs
    | cs => number false cs

def items (steps levels : Nat) (acc : Array Data) (cs : List Char) : Option (Data × List Char) :=
  match steps with
  | 0 => none
  | steps + 1 =>
    match value steps levels cs with
    | none => none
    | some (d, rest) =>
      match skip rest with
      | ',' :: cs => items steps levels (acc.push d) cs
      | ']' :: cs => some (.list (acc.push d).toList, cs)
      | _ => none

def fields (steps levels : Nat) (acc : List (String × Data)) (cs : List Char) :
    Option (Data × List Char) :=
  match steps with
  | 0 => none
  | steps + 1 =>
    match skip cs with
    | '"' :: cs =>
      match text [] none cs with
      | none => none
      | some (name, rest) =>
        match skip rest with
        | ':' :: cs =>
          match value steps levels cs with
          | none => none
          | some (d, rest) =>
            match skip rest with
            | ',' :: cs => fields steps levels (putLast acc name d) cs
            | '\x7d' :: cs => some (.record (putLast acc name d), cs)
            | _ => none
        | _ => none
    | _ => none

end

def parse (s : String) : Option Data :=
  let cs := s.toList
  match value (2 * cs.length + 2) 127 cs with
  | some (d, rest) => if (skip rest).isEmpty then some d else none
  | none => none

end Columnar.Settings.Json
