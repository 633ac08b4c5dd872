import Columnar.Bytes

/-! The footer: the last twenty-four bytes of a table file. It says where the catalog lies, how long
it is and what its checksum is, and ends with a magic of its own. -/

namespace Columnar

structure Footer where
  catalogOffset : UInt64
  catalogLength : UInt32
  catalogChecksum : UInt32
  deriving Repr, DecidableEq

namespace Footer

def size : Nat := 24

def magic : Bytes := Bytes.ofAscii "CSCNEND\x00"

def encode (f : Footer) : Bytes :=
  Bytes.ofUInt64 f.catalogOffset ++ Bytes.ofUInt32 f.catalogLength ++
    Bytes.ofUInt32 f.catalogChecksum ++ magic

def decode? (bs : Bytes) : Option Footer :=
  if bs.length = size ∧ bs.drop 16 = magic then
    some ⟨Bytes.toUInt64 (bs.take 8), Bytes.toUInt32 ((bs.drop 8).take 4),
      Bytes.toUInt32 ((bs.drop 12).take 4)⟩
  else none

@[simp] theorem length_magic : magic.length = 8 := by decide

@[simp] theorem length_encode (f : Footer) : f.encode.length = size := by simp [encode, size]

theorem decode?_encode (f : Footer) : decode? f.encode = some f := by
  have h8 := Bytes.length_ofUInt64 f.catalogOffset
  have h4 := Bytes.length_ofUInt32 f.catalogLength
  have h4' := Bytes.length_ofUInt32 f.catalogChecksum
  have hl : f.encode.length = size := length_encode f
  have hm : f.encode.drop 16 = magic := by
    rw [encode]
    exact List.drop_left' (by simp)
  rw [decode?, if_pos ⟨hl, hm⟩]
  simp [encode, List.drop_append, h8, h4, h4', List.drop_of_length_le]

end Footer
end Columnar
