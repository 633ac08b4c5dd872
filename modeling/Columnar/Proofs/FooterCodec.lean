import Columnar.Table.Footer

/-! Which bytes are a footer. Its words are added to a buffer one after the other, least byte first,
and then the magic; they are read from the same places. Any twenty-four bytes that end in the magic
hold some words, so reading and writing undo each other in both directions. -/

namespace Columnar
namespace Footer

def parts (f : Footer) : List Bytes :=
  [Bytes.ofUInt64 f.catalogOffset, Bytes.ofUInt32 f.catalogLength,
    Bytes.ofUInt32 f.catalogChecksum, magic]

def writeTo (f : Footer) (buffer : Bytes) : Bytes := f.parts.foldl (· ++ ·) buffer

/-- The words of the footer at their places in the bytes, least byte first, with the magic behind
them and nothing else. -/
structure StandsIn (f : Footer) (bs : Bytes) : Prop where
  length_eq : bs.length = 24
  offset_eq : Bytes.value (bs.take 8) = f.catalogOffset.toNat
  catalogLength_eq : Bytes.value ((bs.drop 8).take 4) = f.catalogLength.toNat
  checksum_eq : Bytes.value ((bs.drop 12).take 4) = f.catalogChecksum.toNat
  ends : magic <:+ bs

theorem writeTo_eq (f : Footer) (buffer : Bytes) : f.writeTo buffer = buffer ++ f.encode := by
  simp only [writeTo, parts, encode, List.foldl_cons, List.foldl_nil, List.append_assoc]

theorem drop_eq_magic_iff {bs : Bytes} (hlen : bs.length = 24) :
    bs.drop 16 = magic ↔ magic <:+ bs := by
  rw [List.suffix_iff_eq_drop, hlen, length_magic, eq_comm]

theorem exists_encode {bs : Bytes} (hlen : bs.length = 24) (hmagic : magic <:+ bs) :
    ∃ f : Footer, bs = f.encode := by
  have hoffset : (bs.take 8).length = 8 := List.length_take_of_le (by omega)
  have hlength : ((bs.drop 8).take 4).length = 4 :=
    List.length_take_of_le (by rw [List.length_drop]; omega)
  have hchecksum : ((bs.drop 12).take 4).length = 4 :=
    List.length_take_of_le (by rw [List.length_drop]; omega)
  have hsplit : bs.take 16 = bs.take 8 ++ (bs.drop 8).take 4 ++ (bs.drop 12).take 4 := by
    rw [← List.take_add, ← List.take_add]
  refine ⟨⟨Bytes.toUInt64 (bs.take 8), Bytes.toUInt32 ((bs.drop 8).take 4),
    Bytes.toUInt32 ((bs.drop 12).take 4)⟩, ?_⟩
  rw [encode, Bytes.ofUInt64_toUInt64 hoffset, Bytes.ofUInt32_toUInt32 hlength,
    Bytes.ofUInt32_toUInt32 hchecksum, ← hsplit, ← (drop_eq_magic_iff hlen).2 hmagic,
    List.take_append_drop]

theorem decode?_eq_some_iff {bs : Bytes} {f : Footer} : decode? bs = some f ↔ bs = f.encode := by
  constructor
  · intro h
    have haccepted : bs.length = size ∧ bs.drop 16 = magic := by
      apply Decidable.byContradiction
      intro hrefused
      rw [decode?, if_neg hrefused] at h
      cases h
    obtain ⟨g, rfl⟩ := exists_encode haccepted.1 ((drop_eq_magic_iff haccepted.1).1 haccepted.2)
    rw [decode?_encode] at h
    rw [Option.some.inj h]
  · intro h
    rw [h, decode?_encode]

theorem standsIn_encode (f : Footer) : f.StandsIn f.encode where
  length_eq := length_encode f
  offset_eq := Bytes.value_ofUInt64 f.catalogOffset
  catalogLength_eq := Bytes.value_ofUInt32 f.catalogLength
  checksum_eq := Bytes.value_ofUInt32 f.catalogChecksum
  ends := List.suffix_append _ _

theorem standsIn_iff {bs : Bytes} {f : Footer} : f.StandsIn bs ↔ bs = f.encode := by
  constructor
  · intro h
    obtain ⟨g, rfl⟩ := exists_encode h.length_eq h.ends
    have hg := standsIn_encode g
    have hoffset : f.catalogOffset = g.catalogOffset :=
      UInt64.toNat_inj.1 (h.offset_eq.symm.trans hg.offset_eq)
    have hlength : f.catalogLength = g.catalogLength :=
      UInt32.toNat_inj.1 (h.catalogLength_eq.symm.trans hg.catalogLength_eq)
    have hchecksum : f.catalogChecksum = g.catalogChecksum :=
      UInt32.toNat_inj.1 (h.checksum_eq.symm.trans hg.checksum_eq)
    simp only [encode, hoffset, hlength, hchecksum]
  · intro h
    rw [h]
    exact standsIn_encode f

/-- Footers and the byte strings of twenty-four bytes that end in the magic are in bijection: what
is written behind any buffer is read again, what is read was written, and the words stand at their
places. -/
theorem codec_bijective :
    (∀ (f : Footer) (buffer : Bytes), (f.writeTo buffer).length = buffer.length + 24 ∧
      (f.writeTo buffer).take buffer.length = buffer ∧
      decode? ((f.writeTo buffer).drop buffer.length) = some f) ∧
    (∀ bs : Bytes, (∃ f, decode? bs = some f) ↔ bs.length = 24 ∧ magic <:+ bs) ∧
    ∀ (bs : Bytes) (f : Footer),
      (decode? bs = some f ↔ ∀ buffer, f.writeTo buffer = buffer ++ bs) ∧
      (decode? bs = some f ↔ f.StandsIn bs) := by
  refine ⟨?_, ?_, ?_⟩
  · intro f buffer
    rw [writeTo_eq, List.length_append, length_encode, List.take_left, List.drop_left]
    exact ⟨rfl, rfl, decode?_encode f⟩
  · intro bs
    constructor
    · intro h
      obtain ⟨f, hf⟩ := h
      have hstands := standsIn_iff.2 (decode?_eq_some_iff.1 hf)
      exact ⟨hstands.length_eq, hstands.ends⟩
    · intro h
      obtain ⟨f, hf⟩ := exists_encode h.1 h.2
      exact ⟨f, decode?_eq_some_iff.2 hf⟩
  · intro bs f
    rw [standsIn_iff, decode?_eq_some_iff]
    refine ⟨?_, Iff.rfl⟩
    constructor
    · intro h buffer
      rw [writeTo_eq, h]
    · intro h
      exact (h []).symm.trans (writeTo_eq f [])

example : (⟨20, 258, 0xA1B2C3D4⟩ : Footer).encode =
    [20, 0, 0, 0, 0, 0, 0, 0, 2, 1, 0, 0, 0xD4, 0xC3, 0xB2, 0xA1,
      67, 83, 67, 78, 69, 78, 68, 0] := by decide

end Footer
end Columnar
