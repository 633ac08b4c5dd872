import Columnar.Bytes

/-! The layout of one column block: a header of twelve bytes, padding up to the width of a value, and
the values. The header holds the tag of the value type, the number of rows and the length of the
payload in bytes. -/

namespace Columnar

inductive ValueType
  | int64
  | float64
  deriving Repr, DecidableEq

namespace ValueType

def tag : ValueType → UInt8 | .int64 => 1 | .float64 => 3

def ofTag? (tag : UInt8) : Option ValueType :=
  if tag = 1 then some .int64 else if tag = 3 then some .float64 else none

theorem ofTag?_eq_some_iff {tag : UInt8} {type : ValueType} :
    ofTag? tag = some type ↔ tag = type.tag := by
  unfold ofTag? ValueType.tag
  cases type <;> grind

def width : ValueType → Nat | .int64 | .float64 => 8

def name : ValueType → String | .int64 => "I64" | .float64 => "F64"

end ValueType

def alignUp (offset step : Nat) : Nat :=
  if offset % step = 0 then offset else offset + (step - offset % step)

structure BlockHeader where
  tag : UInt8
  flags : UInt8
  reserved : UInt16
  rowCount : UInt32
  payloadLength : UInt32
  deriving Repr, DecidableEq

namespace BlockHeader

def size : Nat := 12

/-- The most rows whose block keeps every stored length below `2 ^ 32`. -/
def maxRows : Nat := (UInt32.size - 1 - 16) / 8

/-- A payload too long for its field shows as the greatest length. -/
def ofRows (type : ValueType) (rows : UInt32) : BlockHeader :=
  ⟨type.tag, 0, 0, rows, .ofNat (min (rows.toNat * type.width) (UInt32.size - 1))⟩

def encode (h : BlockHeader) : Bytes :=
  h.tag :: h.flags :: (Bytes.ofUInt16 h.reserved ++ Bytes.ofUInt32 h.rowCount ++
    Bytes.ofUInt32 h.payloadLength)

def decode? (bs : Bytes) : Option BlockHeader :=
  (Bytes.split? size bs).map fun (front, _) =>
    ⟨front.headD 0, (front.drop 1).headD 0, Bytes.toUInt16 ((front.drop 2).take 2),
      Bytes.toUInt32 ((front.drop 4).take 4), Bytes.toUInt32 ((front.drop 8).take 4)⟩

@[simp] theorem length_encode (h : BlockHeader) : h.encode.length = size := by
  simp [encode, size]

theorem decode?_encode (h : BlockHeader) (rest : Bytes) : decode? (h.encode ++ rest) = some h := by
  rw [decode?, Bytes.split?_append _ (length_encode h)]
  have h2 := Bytes.length_ofUInt16 h.reserved
  have h4 := Bytes.length_ofUInt32 h.rowCount
  have h4' := Bytes.length_ofUInt32 h.payloadLength
  simp [encode, List.drop_append, h2, h4, h4',
    List.take_of_length_le, List.drop_of_length_le]

theorem take_of_decode? {bs : Bytes} {h : BlockHeader} (hd : decode? bs = some h) :
    bs.take size = h.encode := by
  obtain ⟨⟨front, rest⟩, hs, rfl⟩ := Option.map_eq_some_iff.1 hd
  obtain ⟨rfl, hl⟩ := Bytes.split?_eq_some_iff.1 hs
  rw [List.take_left' hl]
  match front, hl with
  | a :: b :: tail, hl =>
    have ht : tail.length = 10 := by simpa [size] using hl
    have e2 : (tail.take 2).length = 2 := by simp; omega
    have e4 : ((tail.drop 2).take 4).length = 4 := by simp; omega
    have e4' : ((tail.drop 6).take 4).length = 4 := by simp; omega
    simp only [encode, List.headD, List.drop_succ_cons, List.drop_zero,
      Bytes.ofUInt16_toUInt16 e2, Bytes.ofUInt32_toUInt32 e4, Bytes.ofUInt32_toUInt32 e4']
    have e10 : (tail.drop 6).take 4 = tail.drop 6 := List.take_of_length_le (by simp; omega)
    rw [e10, show tail.drop 6 = (tail.drop 2).drop 4 by simp, List.append_assoc,
      List.take_append_drop, List.take_append_drop]

end BlockHeader
end Columnar
