import Columnar.Settings.Toml.Number
import Columnar.Settings.Toml.Section

/-! Reading TOML. A line holds a header, or a dotted key with its value; lists may spread over lines,
inline tables may not. Dates and times become texts. -/

namespace Columnar.Settings.Toml

def skipBlank : List Token → List Token
  | .blank _ :: ts => ts
  | ts => ts

def skipLines : List Token → List Token
  | .blank _ :: ts => skipLines ts
  | .newline :: ts => skipLines ts
  | ts => ts

def name : List Token → Option (String × List Token)
  | .word cs :: ts => some (String.ofList cs, ts)
  | .quoted s false :: ts => some (s, ts)
  | _ => none

def names (steps : Nat) (acc : List String) (ts : List Token) : Option (List String × List Token) :=
  match steps, skipBlank ts with
  | steps + 1, .period :: ts =>
    match name (skipBlank ts) with
    | some (n, ts) => names steps (n :: acc) ts
    | none => none
  | _, ts => some (acc.reverse, ts)

def key (ts : List Token) : Option (List String × List Token) :=
  match name ts with
  | some (n, ts) => names ts.length [n] ts
  | none => none

def plainNumber (cs : List Char) (ts : List Token) : Option (Entry × List Token) :=
  (number cs ts).map fun (d, ts) => (.value d, ts)

def moment (cs : List Char) (ts : List Token) : Option (Entry × List Token) :=
  (Moment.gather cs ts).map fun (letters, ts) => (.moment letters, ts)

def numberOrMoment (cs : List Char) (ts : List Token) : Option (Entry × List Token) :=
  let hasExponentSign := (cs.zip cs.tail).any fun p => (p.1 = 'e' || p.1 = 'E') && p.2 = '-'
  if 'T' ∈ cs ∨ 't' ∈ cs ∨ ('-' ∈ cs.tail ∧ !hasExponentSign) then moment cs ts
  else
    match ts with
    | .colon :: _ => moment cs ts
    | _ => plainNumber cs ts

def word (cs : List Char) (ts : List Token) : Option (Entry × List Token) :=
  if cs = "true".toList then some (.value (.boolean true), ts)
  else if cs = "false".toList then some (.value (.boolean false), ts)
  else if cs = "inf".toList ∨ cs = "nan".toList then numberOrMoment cs ts
  else
    match cs with
    | c :: _ => if c = '-' ∨ (digitValue? 10 c).isSome then numberOrMoment cs ts else none
    | [] => none

mutual

/-- One value. Two calls take at least one token, so twice their number bounds `steps`. -/
def value (steps : Nat) (ts : List Token) : Option (Entry × List Token) :=
  match steps with
  | 0 => none
  | steps + 1 =>
    match ts with
    | .quoted s _ :: ts => some (.value (.text s), ts)
    | .word cs :: ts => word cs ts
    | .plus :: .word cs :: ts => plainNumber cs ts
    | .leftBracket :: ts => items steps #[] ts
    | .leftBrace :: ts =>
      match skipBlank ts with
      | .rightBrace :: ts => some (.inline [], ts)
      | ts => pairs steps [] ts
    | _ => none

def items (steps : Nat) (acc : Array Entry) (ts : List Token) : Option (Entry × List Token) :=
  match steps with
  | 0 => none
  | steps + 1 =>
    match skipLines ts with
    | .rightBracket :: ts => some (.list acc.toList, ts)
    | ts =>
      match value steps ts with
      | none => none
      | some (e, ts) =>
        match skipLines ts with
        | .comma :: ts => items steps (acc.push e) ts
        | .rightBracket :: ts => some (.list (acc.push e).toList, ts)
        | _ => none

def pairs (steps : Nat) (acc : Fields) (ts : List Token) : Option (Entry × List Token) :=
  match steps with
  | 0 => none
  | steps + 1 =>
    match key ts with
    | some (path, .equals :: ts) =>
      match value steps (skipBlank ts) with
      | none => none
      | some (e, ts) =>
        match Fields.put path e acc, skipBlank ts with
        | some acc, .rightBrace :: ts => some (.inline acc, ts)
        | some acc, .comma :: ts => pairs steps acc (skipBlank ts)
        | _, _ => none
    | _ => none

end

def lineEnd (ts : List Token) : Option (List Token) :=
  match skipBlank ts with
  | [] => some []
  | .newline :: ts => some ts
  | _ => none

def header (ts : List Token) : Option (Section × List Token) :=
  let (element, ts) : Bool × List Token := match ts with
    | .leftBracket :: ts => (true, ts)
    | ts => (false, ts)
  match key (skipBlank ts) with
  | some (path, .rightBracket :: ts) =>
    match element, ts with
    | true, .rightBracket :: ts => (lineEnd ts).map fun ts => (⟨path, true, []⟩, ts)
    | true, _ => none
    | false, ts => (lineEnd ts).map fun ts => (⟨path, false, []⟩, ts)
  | _ => none

def lines (steps : Nat) (body : Fields) (ts : List Token) : Option (Fields × List Section) :=
  match steps, skipLines ts with
  | _, [] => some (body, [])
  | 0, _ => none
  | steps + 1, .leftBracket :: ts =>
    match header ts with
    | some (s, ts) =>
      (lines steps [] ts).map fun (inner, sections) => (body, { s with body := inner } :: sections)
    | none => none
  | steps + 1, ts =>
    match key ts with
    | some (path, .equals :: ts) =>
      match value (2 * ts.length + 1) (skipBlank ts) with
      | none => none
      | some (e, ts) =>
        match Fields.put path e body, lineEnd ts with
        | some body, some ts => lines steps body ts
        | _, _ => none
    | _ => none

def parse (s : String) : Option Data :=
  (tokens s).bind fun ts =>
    (lines (ts.length + 1) [] ts).bind fun (front, sections) => document? front sections

end Columnar.Settings.Toml
