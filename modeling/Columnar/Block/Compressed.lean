import Columnar.Scratch
import Columnar.Error

/-! Working on a compressed block. The announced size must be the one expected; the block is then
decompressed into the scratch buffer, and an action is run on what the buffer holds, but only if it
was filled. `withDecompressed_eq` and `readCompressed_eq` state the outcome without the buffer. -/

namespace Columnar

def blockError (defect : BlockDefect) : ScanError := .columnRead (.block defect)

def Lz4.decompressInto (input : Bytes) (buffer : Buffer) : Except StoreError (Nat × Buffer) :=
  (decodeInto input buffer).mapError fun fault => .compression (.undecodable fault)

theorem Lz4.decompressInto_of_error {input : Bytes} {buffer : Buffer} {fault : Fault}
    (h : decode buffer.size input = .error fault) :
    decompressInto input buffer = .error (.compression (.undecodable fault)) := by
  rw [decompressInto, decodeInto_of_error h]
  rfl

theorem Lz4.decompressInto_of_ok {input : Bytes} {buffer : Buffer} {out : Array UInt8}
    (h : decode buffer.size input = .ok out) :
    decompressInto input buffer = .ok (out.size, buffer.overwrite out (decode_size_le h)) := by
  rw [decompressInto, decodeInto_of_ok h]
  rfl

section Actions

variable {m : Type → Type} [Monad m] {α : Type}

def fillAndRun (body : Bytes) (action : Bytes → StateT Scratch m (Except ScanError α))
    (buffer : Buffer) : StateT Scratch m (Except ScanError α × Buffer) :=
  match Lz4.decompressInto body buffer with
  | .error e => pure (.error (blockError (.undecodable e)), buffer)
  | .ok (written, filled) =>
    if written ≠ buffer.size then pure (.error (blockError (.short written buffer.size)), filled)
    else do
      let result ← action filled.toList
      pure (result, filled)

def withDecompressed (compressed : Bytes) (expected : Nat)
    (action : Bytes → StateT Scratch m (Except ScanError α)) :
    StateT Scratch m (Except ScanError α) :=
  match Lz4.announcedSize? compressed with
  | none => pure (.error (blockError .missingSize))
  | some size =>
    if size ≠ expected then pure (.error (blockError (.sizeMismatch size expected)))
    else Scratch.lend size (fillAndRun (compressed.drop 4) action)

end Actions

def readCompressed (compressed : Bytes) (expected : Nat) (read : Bytes → Except ScanError α) :
    StateM Scratch (Except ScanError α) :=
  withDecompressed compressed expected fun bs => pure (read bs)

def decompress (compressed : Bytes) (expected : Nat) : Except BlockDefect Bytes :=
  match Lz4.announcedSize? compressed with
  | none => .error .missingSize
  | some size =>
    if size ≠ expected then .error (.sizeMismatch size expected)
    else
      match Lz4.decode size (compressed.drop 4) with
      | .error fault => .error (.undecodable (.compression (.undecodable fault)))
      | .ok out =>
        if out.size ≠ size then .error (.short out.size size)
        else .ok out.toList

section Outcomes

variable {m : Type → Type} [Monad m] [LawfulMonad m] {α : Type}

theorem fillAndRun_zeroed (body : Bytes) (action : Bytes → StateT Scratch m (Except ScanError α))
    (size : Nat) : ∃ filled, fillAndRun body action (.zeroed size) =
      match Lz4.decode size body with
      | .error fault =>
        pure (.error (blockError (.undecodable (.compression (.undecodable fault)))), filled)
      | .ok out =>
        if out.size ≠ size then pure (.error (blockError (.short out.size size)), filled)
        else (fun result => (result, filled)) <$> action out.toList := by
  have hz : (Buffer.zeroed size).size = size := rfl
  cases hd : Lz4.decode size body with
  | error fault =>
    exact ⟨.zeroed size, by rw [fillAndRun, Lz4.decompressInto_of_error hd]⟩
  | ok out =>
    refine ⟨(Buffer.zeroed size).overwrite out (Lz4.decode_size_le hd), ?_⟩
    rw [fillAndRun, Lz4.decompressInto_of_ok hd]
    by_cases hs : out.size = size
    · subst hs
      have hlist : ((Buffer.zeroed out.size).overwrite out (Nat.le_refl _)).toList = out.toList := by
        simp [Buffer.overwrite, Buffer.toList, Buffer.zeroed]
      simp only [hz, hlist, ne_eq, not_true_eq_false, if_false, map_eq_pure_bind]
    · simp only [hz, ne_eq, hs, not_false_eq_true, if_true]

theorem withDecompressed_eq (compressed : Bytes) (expected : Nat)
    (action : Bytes → StateT Scratch m (Except ScanError α)) (slot : Scratch) :
    ∃ kept, withDecompressed compressed expected action slot =
      match decompress compressed expected with
      | .error defect => pure (.error (blockError defect), kept)
      | .ok bs => (fun p => (p.1, kept)) <$> action bs .empty := by
  cases ha : Lz4.announcedSize? compressed with
  | none => exact ⟨slot, by simp only [withDecompressed, decompress, ha]; rfl⟩
  | some size =>
    by_cases he : size = expected
    · subst he
      obtain ⟨filled, hrun⟩ := fillAndRun_zeroed (compressed.drop 4) action size
      refine ⟨⟨filled⟩, ?_⟩
      simp only [withDecompressed, decompress, ha, ne_eq, not_true_eq_false, if_false,
        Scratch.lend_apply, hrun]
      cases Lz4.decode size (compressed.drop 4) with
      | error fault => exact pure_bind _ _
      | ok out =>
        by_cases hs : out.size = size
        · simp only [hs, not_true_eq_false, if_false]
          change (_ >>= _) >>= _ = _
          simp only [bind_assoc, pure_bind, map_eq_pure_bind]
        · simp only [hs, not_false_eq_true, if_true]
          exact pure_bind _ _
    · refine ⟨slot, ?_⟩
      simp only [withDecompressed, decompress, ha, ne_eq, he, not_false_eq_true, if_true]
      rfl

end Outcomes

theorem readCompressed_eq (compressed : Bytes) (expected : Nat)
    (read : Bytes → Except ScanError α) (slot : Scratch) :
    (readCompressed compressed expected read slot).1 =
      match decompress compressed expected with
      | .error defect => .error (blockError defect)
      | .ok bs => read bs := by
  obtain ⟨kept, h⟩ :=
    withDecompressed_eq (m := Id) compressed expected (fun bs => pure (read bs)) slot
  rw [readCompressed, h]
  cases decompress compressed expected with
  | error defect => rfl
  | ok bs => rfl

end Columnar
