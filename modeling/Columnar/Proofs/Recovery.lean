import Columnar.Proofs.CompleteBlocks
import Columnar.Proofs.Sequences

/-! What was compressed comes back. Any function that writes blocks of the format may be the encoder;
its blocks are decoded in every buffer that holds the input, refused in every other, and an action
on the block sees the input. -/

namespace Columnar.Lz4

/-- Inputs short enough for a size word are written as blocks that describe them. -/
def WritesBlocks (encode : Bytes → Bytes) : Prop :=
  ∀ bs : Bytes, bs.length < UInt32.size → Describes #[] (encode bs) bs.toArray

def Encoder.ofBlocks (encode : Bytes → Bytes) (h : WritesBlocks encode) : Encoder :=
  ⟨encode, fun bs hbs => decode_eq_ok_iff.2 ⟨h bs hbs, Nat.le_refl _⟩⟩

theorem Encoder.writesBlocks (e : Encoder) : WritesBlocks e.encode := by
  intro bs hbs
  exact (decode_eq_ok_iff.1 (e.decode_encode bs hbs)).1

section OneBlock

variable {input bs : Bytes} {buffer : Buffer} (h : Describes #[] input bs.toArray)

include h

theorem Describes.decompressInto_of_le (hroom : bs.length ≤ buffer.size) :
    ∃ filled, decompressInto input buffer = .ok (bs.length, filled) ∧
      filled.size = buffer.size ∧ filled.toList.take bs.length = bs := by
  have hd : decode buffer.size input = .ok bs.toArray := decode_eq_ok_iff.2 ⟨h, hroom⟩
  refine ⟨buffer.overwrite bs.toArray (decode_size_le hd), decompressInto_of_ok hd, rfl, ?_⟩
  simp [Buffer.overwrite, Buffer.toList]

theorem Describes.decompressInto_of_lt (hshort : buffer.size < bs.length) :
    ∃ fault, decompressInto input buffer = .error (.compression fault) := by
  cases hd : decode buffer.size input with
  | error fault => exact ⟨.undecodable fault, decompressInto_of_error hd⟩
  | ok out =>
    obtain ⟨hout, hroom⟩ := decode_eq_ok_iff.1 hd
    obtain rfl := h.unique hout
    exact absurd hroom (Nat.not_le.2 hshort)

end OneBlock

/-- With any encoder of the format, the size in front is that of the input, a buffer that holds the
input receives it and a shorter one is refused, and an action on the block is run once, on the
input. -/
theorem compress_recovers (encode : Bytes → Bytes) (hencode : WritesBlocks encode) (bs : Bytes)
    (hbs : bs.length < UInt32.size) :
    let compressed := (Encoder.ofBlocks encode hencode).compress bs
    announcedSize? compressed = some bs.length ∧
      (∀ buffer : Buffer, bs.length ≤ buffer.size → ∃ filled,
        decompressInto (compressed.drop 4) buffer = .ok (bs.length, filled) ∧
          filled.size = buffer.size ∧ filled.toList.take bs.length = bs) ∧
      (∀ buffer : Buffer, buffer.size < bs.length → ∃ fault,
        decompressInto (compressed.drop 4) buffer = .error (.compression fault)) ∧
      ∀ (σ α : Type) (action : Bytes → StateT Scratch (StateM σ) (Except ScanError α))
        (slot : Scratch) (world : σ),
        let ((result, _), after) := action bs .empty world
        ∃ kept, withDecompressed compressed bs.length (noted action) slot (world, []) =
          ((result, kept), (after, [⟨bs, result⟩])) := by
  intro compressed
  have hblock := hencode bs hbs
  have hdrop : compressed.drop 4 = encode bs := Encoder.drop_compress _ bs
  refine ⟨Encoder.announcedSize?_compress _ hbs, ?_, ?_, ?_⟩
  · intro buffer hroom
    rw [hdrop]
    exact hblock.decompressInto_of_le hroom
  · intro buffer hshort
    rw [hdrop]
    exact hblock.decompressInto_of_lt hshort
  · intro σ α action slot world
    exact withDecompressed_of_completes (Encoder.completes_compress _ hbs) (noted action) slot
      (world, [])

def repeated : Bytes := List.replicate 30 97

def repeatedBlock : Bytes := [0x1F, 97, 1, 0, 5, 0x50, 97, 97, 97, 97, 97]

theorem repeatedBlock_describes : Describes #[] repeatedBlock repeated.toArray := by
  have hcontinued : lengthBytes 20 = [5] := by simp [lengthBytes, lengthTail]
  have hlast : Describes (copy 1 24 #[97]) _ _ := .last 0x50 [97, 97, 97, 97, 97] (by decide)
  have hblock : Describes #[] _ _ := .sequence 0x1F [97] 1 20 _ (by decide) (by decide) (by decide)
    (by decide) hlast
  rw [hcontinued] at hblock
  exact hblock

def matching (bs : Bytes) : Bytes := if bs = repeated then repeatedBlock else encode bs

theorem matching_writesBlocks : WritesBlocks matching := by
  intro bs hbs
  by_cases h : bs = repeated
  · rw [matching, if_pos h, h]
    exact repeatedBlock_describes
  · rw [matching, if_neg h]
    exact literalRun.writesBlocks bs hbs

theorem matching_recovers_repeated :
    let compressed := (Encoder.ofBlocks matching matching_writesBlocks).compress repeated
    compressed.length = 15 ∧ announcedSize? compressed = some 30 ∧
      (∃ filled, decompressInto (compressed.drop 4) (.ofList (List.replicate 40 255)) =
        .ok (30, filled) ∧ filled.toList.take 30 = repeated) ∧
      ∃ fault, decompressInto (compressed.drop 4) (.zeroed 29) = .error (.compression fault) := by
  intro compressed
  obtain ⟨hsize, hfits, hshort, -⟩ :=
    compress_recovers matching matching_writesBlocks repeated (by decide)
  obtain ⟨filled, hfilled, -, hfront⟩ := hfits (.ofList (List.replicate 40 255)) (by decide)
  exact ⟨by decide, hsize, ⟨filled, hfilled, hfront⟩, hshort (.zeroed 29) (by decide)⟩

end Columnar.Lz4
