import Columnar.Table.Header

/-! Which bytes are a file header. The checksum is taken field after field when a header is written,
and over sixteen bytes when it is read; both give one number, so a header that was made by `new` is
read again whatever follows it. Twenty bytes are always the encoding of some header, and the checks
then look at its checksum, its magic and its version, in this order. -/

namespace Columnar
namespace FileHeader

def fields (h : FileHeader) : List Bytes :=
  [Bytes.ofUInt64 h.magic, Bytes.ofUInt16 h.version, Bytes.ofUInt16 h.flags,
    Bytes.ofUInt32 h.reserved]

def fieldsChecksum (h : FileHeader) : UInt32 :=
  h.fields.foldl Checksum.run 0xFFFFFFFF ^^^ 0xFFFFFFFF

theorem crc32_body (h : FileHeader) : Checksum.crc32 h.body = h.fieldsChecksum := by
  rw [Checksum.crc32, body, Checksum.run_append, Checksum.run_append, Checksum.run_append]
  rfl

theorem take_body (h : FileHeader) (rest : Bytes) : (h.encode ++ rest).take 16 = h.body := by
  rw [encode, List.append_assoc]
  exact List.take_left' (length_body h)

theorem take_encode (h : FileHeader) (rest : Bytes) : (h.encode ++ rest).take size = h.encode :=
  List.take_left' (length_encode h)

theorem encode_injective {h k : FileHeader} (he : h.encode = k.encode) : h = k := by
  have hh := decode?_encode h []
  rw [he, decode?_encode k []] at hh
  exact (Option.some.inj hh).symm

theorem exists_encode_append {bs : Bytes} (h : size ≤ bs.length) :
    ∃ (header : FileHeader) (rest : Bytes), bs = header.encode ++ rest := by
  obtain ⟨header, hd⟩ : ∃ header, decode? bs = some header := by
    rw [decode?, Bytes.split?_of_le h]
    exact ⟨_, rfl⟩
  refine ⟨header, bs.drop size, ?_⟩
  rw [← take_of_decode? hd, List.take_append_drop]

theorem read_encode (header : FileHeader) (rest : Bytes) :
    read (header.encode ++ rest) = if header.Sealed then .ok header else .error .checksum := by
  rw [read, decode?_encode]

theorem validate_encode (header : FileHeader) (rest : Bytes) :
    validate (header.encode ++ rest) =
      if ¬header.Sealed then .error .checksum
      else if header.magic ≠ tableMagic then .error .magic
      else if header.version ≠ tableVersion then .error .version
      else .ok (header, size) := by
  have hlen : ¬(header.encode ++ rest).length < size := by
    rw [List.length_append, length_encode]
    omega
  have hread := read_encode header []
  rw [List.append_nil] at hread
  rw [validate, if_neg hlen, take_encode, hread]
  by_cases hs : header.Sealed
  · simp only [hs, if_true, not_true_eq_false, if_false]
  · simp only [hs, if_false, not_false_eq_true, if_true]

/-- The header of a table file is accepted exactly where its twenty bytes stand, and comes back as
it was written; a header with another checksum is not read. -/
theorem accepted_exactly :
    (∀ (bs : Bytes) (header : FileHeader) (next : Nat),
      validate bs = .ok (header, next) ↔
        size ≤ bs.length ∧ bs.take size = header.encode ∧ header.magic = tableMagic ∧
          header.version = tableVersion ∧ header.checksum = Checksum.crc32 (bs.take 16) ∧
          next = size) ∧
    (∀ (magic : UInt64) (version flags : UInt16) (rest : Bytes),
      read ((new magic version flags).encode ++ rest) = .ok (new magic version flags)) ∧
    ∀ (header : FileHeader) (rest : Bytes), header.checksum ≠ header.fieldsChecksum →
      read (header.encode ++ rest) = .error .checksum ∧
        HeaderFault.checksum.kind = .invalidData := by
  refine ⟨?_, ?_, ?_⟩
  · intro bs header next
    by_cases hlen : size ≤ bs.length
    · obtain ⟨found, rest, rfl⟩ := exists_encode_append hlen
      rw [validate_encode, take_encode, take_body]
      constructor
      · intro h
        split at h
        · cases h
        split at h
        · cases h
        split at h
        · cases h
        rename_i hsealed hmagic hversion
        obtain ⟨rfl, rfl⟩ := Prod.mk.inj (Except.ok.inj h)
        exact ⟨hlen, rfl, Decidable.not_not.1 hmagic, Decidable.not_not.1 hversion,
          Decidable.not_not.1 hsealed, rfl⟩
      · rintro ⟨-, hencode, hmagic, hversion, hchecksum, rfl⟩
        obtain rfl := encode_injective hencode
        have hsealed : found.Sealed := hchecksum
        simp only [hsealed, hmagic, hversion, not_true_eq_false, ne_eq, if_false]
    · rw [validate, if_pos (Nat.not_le.1 hlen)]
      constructor
      · intro h
        cases h
      · rintro ⟨hle, -⟩
        exact absurd hle hlen
  · intro magic version flags rest
    rw [read_encode, if_pos (new_sealed magic version flags)]
  · intro header rest hne
    have hopen : ¬header.Sealed := by
      rwa [Sealed, crc32_body]
    rw [read_encode, if_neg hopen]
    exact ⟨rfl, rfl⟩

theorem flagged_accepted_unsealed_refused :
    let flagged : FileHeader := ⟨tableMagic, tableVersion, 7, 9, 0x972291F8⟩
    let unsealed : FileHeader := { flagged with checksum := 0 }
    unsealed.checksum ≠ unsealed.fieldsChecksum ∧
      read (unsealed.encode ++ [1, 2, 3]) = .error .checksum ∧
      validate (flagged.encode ++ [1, 2, 3]) = .ok (flagged, 20) := by
  intro flagged unsealed
  have hne : unsealed.checksum ≠ unsealed.fieldsChecksum := by decide +kernel
  have hsealed : flagged.checksum =
      Checksum.crc32 ((flagged.encode ++ [1, 2, 3]).take 16) := by
    decide +kernel
  obtain ⟨haccepts, -, hrefuses⟩ := accepted_exactly
  exact ⟨hne, (hrefuses unsealed [1, 2, 3] hne).1,
    (haccepts _ flagged 20).2 ⟨by decide, take_encode flagged _, rfl, rfl, hsealed, rfl⟩⟩

end FileHeader
end Columnar
