import Columnar.Bytes

/-! Text as UTF-8 bytes. Decoding accepts exactly the encodings of texts; a byte string that is
none is described by the place of its first bad sequence and the number of bytes that belong to
it, or by its place alone when the input ends inside a sequence. -/

namespace Columnar.Utf8

def encode (s : String) : Bytes := s.toByteArray.data.toList

def decode? (bs : Bytes) : Option String := String.fromUTF8? ⟨bs.toArray⟩

theorem decode?_eq_some_iff {bs : Bytes} {s : String} : decode? bs = some s ↔ bs = encode s := by
  unfold decode? encode String.fromUTF8?
  constructor
  · intro h
    split at h
    · obtain rfl := Option.some.inj h
      rfl
    · simp at h
  · rintro rfl
    have hs : (⟨s.toByteArray.data.toList.toArray⟩ : ByteArray) = s.toByteArray := by simp
    rw [hs, dif_pos s.isValidUTF8]
    rfl

/-- Where decoding stopped: the bytes before `index` are text. `length` counts the bytes of the
bad sequence and is absent when more bytes could have completed it. -/
structure Fault where
  index : Nat
  length : Option Nat
  deriving Repr, DecidableEq

def Fault.message (f : Fault) : String :=
  match f.length with
  | some n => s!"invalid utf-8 sequence of {n} bytes from index {f.index}"
  | none => s!"incomplete utf-8 byte sequence from index {f.index}"

structure Pending where
  taken : Nat
  owed : Nat
  low : UInt8
  high : UInt8

def Pending.ofFirst? (b : UInt8) : Option Pending :=
  if b ≤ 0x7F then some ⟨1, 0, 0x80, 0xBF⟩
  else if b < 0xC2 then none
  else if b ≤ 0xDF then some ⟨1, 1, 0x80, 0xBF⟩
  else if b = 0xE0 then some ⟨1, 2, 0xA0, 0xBF⟩
  else if b = 0xED then some ⟨1, 2, 0x80, 0x9F⟩
  else if b ≤ 0xEF then some ⟨1, 2, 0x80, 0xBF⟩
  else if b = 0xF0 then some ⟨1, 3, 0x90, 0xBF⟩
  else if b ≤ 0xF3 then some ⟨1, 3, 0x80, 0xBF⟩
  else if b = 0xF4 then some ⟨1, 3, 0x80, 0x8F⟩
  else none

def firstFault (index : Nat) : Option Pending → Bytes → Option Fault
  | none, [] => none
  | some p, [] => if p.owed = 0 then none else some ⟨index, none⟩
  | none, b :: bs =>
    match Pending.ofFirst? b with
    | none => some ⟨index, some 1⟩
    | some p => firstFault index (some p) bs
  | some p, b :: bs =>
    if p.owed = 0 then
      match Pending.ofFirst? b with
      | none => some ⟨index + p.taken, some 1⟩
      | some q => firstFault (index + p.taken) (some q) bs
    else if p.low ≤ b && b ≤ p.high then
      firstFault index (some ⟨p.taken + 1, p.owed - 1, 0x80, 0xBF⟩) bs
    else some ⟨index, some p.taken⟩

def decode (bs : Bytes) : Except Fault String :=
  match decode? bs with
  | some s => .ok s
  | none => .error ((firstFault 0 none bs).getD ⟨0, none⟩)

theorem decode_eq_ok_iff {bs : Bytes} {s : String} : decode bs = .ok s ↔ bs = encode s := by
  unfold decode
  rw [← decode?_eq_some_iff]
  cases decode? bs <;> simp

/-- Text for display: the bad sequences of a byte string show as one replacement character each.
Every step leaves fewer bytes, so their number bounds the steps. -/
def decodeLossy (bs : Bytes) : String :=
  go bs.length bs
where
  go : Nat → Bytes → String
    | 0, _ => ""
    | steps + 1, bs =>
      match decode bs with
      | .ok s => s
      | .error f =>
        let good := (decode? (bs.take f.index)).getD ""
        match f.length with
        | none => good ++ "\ufffd"
        | some n => good ++ "\ufffd" ++ go steps (bs.drop (f.index + n))

end Columnar.Utf8
