import Columnar.Settings.Fault

/-! Reading plain settings. Numbers may be given as numbers, truth values or texts, and texts as any
plain value; a fraction is rounded, and what lies outside of 64 bits without a sign goes to the
nearer end. -/

namespace Columnar.Settings

structure Entry where
  key : String
  node : Node

namespace Entry

def mistyped (e : Entry) (need : Need) : Fault := .mistyped e.node.shape need e.key e.node.origin

/-- The nearest number without a sign, halves away from zero; zero for what is no number. -/
def rounded (x : Binary64) : UInt64 :=
  if x.isNaN ∨ x.isNegative then 0
  else if !x.isFinite then .ofNat (UInt64.size - 1)
  else
    let n := (2 * x.numerator + x.denominator) / (2 * x.denominator)
    .ofNat (min n (UInt64.size - 1))

def number? (s : String) : Option UInt64 :=
  let word := s.map Char.toLower
  if word ∈ ["true", "on", "yes"] then some 1
  else if word ∈ ["false", "off", "no"] then some 0
  else (Text.unsigned? s).bind fun n => if n < UInt64.size then some (.ofNat n) else none

def number (e : Entry) : Except Fault UInt64 :=
  match e.node with
  | .scalar _ (.integer n) =>
    if 0 ≤ n ∧ n < UInt64.size then .ok (.ofNat n.toNat) else .error (e.mistyped .nonnegative)
  | .scalar _ (.boolean b) => .ok (if b then 1 else 0)
  | .scalar _ (.float x) => .ok (rounded x)
  | .scalar _ (.text s) =>
    match number? s with
    | some n => .ok n
    | none => .error (e.mistyped .number)
  | _ => .error (e.mistyped .number)

def text (e : Entry) : Except Fault String :=
  match e.node with
  | .scalar _ (.text s) => .ok s
  | .scalar _ (.boolean b) => .ok (toString b)
  | .scalar _ (.integer n) => .ok (toString n)
  | .scalar _ (.float x) => .ok (Decimal.text x)
  | _ => .error (e.mistyped .text)

def optionalText (e : Entry) : Except Fault (Option String) :=
  match e.node with
  | .scalar _ .null => .ok none
  | _ => e.text.map some

def threeTexts (e : Entry) : Except Fault (String × String × String) :=
  match e.node with
  | .list _ (x :: y :: z :: _) => do
    pure (← text ⟨e.key ++ "[0]", x⟩, ← text ⟨e.key ++ "[1]", y⟩, ← text ⟨e.key ++ "[2]", z⟩)
  | .list _ items => do
    let _ ← (items.zipIdx).mapM fun (item, i) => text ⟨s!"{e.key}[{i}]", item⟩
    .error (.tooShort items.length .columns)
  | n => .error (.misshapen n.shape .columns)

end Entry

def Entry.isSection : Entry → Bool
  | ⟨_, .record ..⟩ | ⟨_, .list ..⟩ => true
  | _ => false

def Entry.setting? (e : Entry) (name : String) (place : Nat) : Option Entry :=
  match e.node with
  | .record _ fields => (fields.lookup name).map fun n => ⟨s!"{e.key}.{name}", n⟩
  | .list _ items => items[place]?.map fun n => ⟨s!"{e.key}[{place}]", n⟩
  | .scalar .. => none

def Entry.settingOr {α : Type} (e : Entry) (name : String) (place : Nat)
    (read : Entry → Except Fault α) (default : α) : Except Fault α :=
  match e.setting? name place with
  | some s => read s
  | none => .ok default

end Columnar.Settings
