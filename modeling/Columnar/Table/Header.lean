import Columnar.Checksum

/-! The file header: eight bytes of magic, version, flags, a reserved word, and the checksum of these
sixteen bytes. A header is read if twenty bytes are there and the checksum fits; a table file also
needs its own magic and version. -/

namespace Columnar

inductive HeaderFault
  | cutShort
  | tooSmall
  | checksum
  | magic
  | version
  deriving Repr, DecidableEq

def HeaderFault.message : HeaderFault → String
  | .cutShort => "failed to fill whole buffer"
  | .tooSmall => "file too small for header"
  | .checksum => "header CRC mismatch"
  | .magic => "invalid magic"
  | .version => "unsupported version"

inductive HeaderFault.Kind
  | unexpectedEnd
  | invalidData
  deriving Repr, DecidableEq

def HeaderFault.kind : HeaderFault → HeaderFault.Kind
  | .cutShort => .unexpectedEnd
  | .tooSmall | .checksum | .magic | .version => .invalidData

/-- The magic is kept as the little-endian word of its eight bytes. -/
structure FileHeader where
  magic : UInt64
  version : UInt16
  flags : UInt16
  reserved : UInt32
  checksum : UInt32
  deriving Repr, DecidableEq

namespace FileHeader

def size : Nat := 20

def tableMagic : UInt64 := Bytes.toUInt64 (Bytes.ofAscii "CSCNTBL\x00")
def tableVersion : UInt16 := 1

def body (h : FileHeader) : Bytes :=
  Bytes.ofUInt64 h.magic ++ Bytes.ofUInt16 h.version ++ Bytes.ofUInt16 h.flags ++
    Bytes.ofUInt32 h.reserved

def encode (h : FileHeader) : Bytes := h.body ++ Bytes.ofUInt32 h.checksum

def Sealed (h : FileHeader) : Prop := h.checksum = Checksum.crc32 h.body

instance (h : FileHeader) : Decidable h.Sealed := inferInstanceAs (Decidable (_ = _))

def new (magic : UInt64) (version flags : UInt16) : FileHeader :=
  let h : FileHeader := ⟨magic, version, flags, 0, 0⟩
  { h with checksum := Checksum.crc32 h.body }

theorem new_sealed (magic : UInt64) (version flags : UInt16) : (new magic version flags).Sealed :=
  rfl

def ofTable : FileHeader := new tableMagic tableVersion 0

def decode? (bs : Bytes) : Option FileHeader :=
  (Bytes.split? size bs).map fun (front, _) =>
    ⟨Bytes.toUInt64 (front.take 8), Bytes.toUInt16 ((front.drop 8).take 2),
      Bytes.toUInt16 ((front.drop 10).take 2), Bytes.toUInt32 ((front.drop 12).take 4),
      Bytes.toUInt32 ((front.drop 16).take 4)⟩

@[simp] theorem length_body (h : FileHeader) : h.body.length = 16 := by simp [body]

@[simp] theorem length_encode (h : FileHeader) : h.encode.length = size := by simp [encode, size]

theorem decode?_encode (h : FileHeader) (rest : Bytes) : decode? (h.encode ++ rest) = some h := by
  rw [decode?, Bytes.split?_append _ (length_encode h)]
  have h8 := Bytes.length_ofUInt64 h.magic
  have h2 := Bytes.length_ofUInt16 h.version
  have h2' := Bytes.length_ofUInt16 h.flags
  have h4 := Bytes.length_ofUInt32 h.reserved
  have h4' := Bytes.length_ofUInt32 h.checksum
  simp [encode, body, List.drop_append, h8, h2, h2', h4, h4',
    List.take_of_length_le, List.drop_of_length_le]

theorem take_of_decode? {bs : Bytes} {h : FileHeader} (hd : decode? bs = some h) :
    bs.take size = h.encode := by
  obtain ⟨⟨front, rest⟩, hs, rfl⟩ := Option.map_eq_some_iff.1 hd
  obtain ⟨rfl, hl⟩ := Bytes.split?_eq_some_iff.1 hs
  rw [List.take_left' hl]
  have hl' : front.length = 20 := hl
  have e8 : (front.take 8).length = 8 := by simp; omega
  have e2 : ((front.drop 8).take 2).length = 2 := by simp; omega
  have e2' : ((front.drop 10).take 2).length = 2 := by simp; omega
  have e4 : ((front.drop 12).take 4).length = 4 := by simp; omega
  have e4' : ((front.drop 16).take 4).length = 4 := by simp; omega
  simp only [encode, body, Bytes.ofUInt64_toUInt64 e8, Bytes.ofUInt16_toUInt16 e2,
    Bytes.ofUInt16_toUInt16 e2', Bytes.ofUInt32_toUInt32 e4, Bytes.ofUInt32_toUInt32 e4']
  have e16 : (front.drop 16).take 4 = front.drop 16 := List.take_of_length_le (by simp; omega)
  rw [e16, show front.drop 16 = (front.drop 12).drop 4 by simp, List.append_assoc,
    List.take_append_drop, show front.drop 12 = (front.drop 10).drop 2 by simp, List.append_assoc,
    List.take_append_drop, show front.drop 10 = (front.drop 8).drop 2 by simp, List.append_assoc,
    List.take_append_drop, List.take_append_drop]

def read (bs : Bytes) : Except HeaderFault FileHeader :=
  match decode? bs with
  | none => .error .cutShort
  | some h => if h.Sealed then .ok h else .error .checksum

def validate (bs : Bytes) : Except HeaderFault (FileHeader × Nat) :=
  if bs.length < size then .error .tooSmall
  else
    match read (bs.take size) with
    | .error e => .error e
    | .ok h =>
      if h.magic ≠ tableMagic then .error .magic
      else if h.version ≠ tableVersion then .error .version
      else .ok (h, size)

theorem validate_ofTable : validate ofTable.encode = .ok (ofTable, size) := by
  have hdec : decode? ofTable.encode = some ofTable := by
    simpa using decode?_encode ofTable []
  have htake : ofTable.encode.take size = ofTable.encode :=
    List.take_of_length_le (Nat.le_of_eq (length_encode ofTable))
  have hsealed : ofTable.Sealed := new_sealed tableMagic tableVersion 0
  have hread : read ofTable.encode = .ok ofTable := by
    simp only [read, hdec, hsealed, if_true]
  rw [validate, if_neg (Nat.not_lt.2 (Nat.le_of_eq (length_encode ofTable).symm)), htake, hread]
  rfl

end FileHeader
end Columnar
