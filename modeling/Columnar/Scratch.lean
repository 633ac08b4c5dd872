import Columnar.Lz4

/-! A scratch buffer that is lent out again and again. The slot keeps the storage of the last buffer;
`lend` clears it, grows it to the length asked for and hands it to an action, which may lend again
from the slot left empty meanwhile. `lend_apply` says that the action sees zeros of that length and
that its result is returned, whatever the slot held. -/

namespace Columnar

/-- A buffer of `size` bytes: those of `front`, then zeros. -/
structure Buffer where
  size : Nat
  front : Array UInt8
  front_le : front.size ≤ size

namespace Buffer

def empty : Buffer := ⟨0, #[], Nat.le_refl 0⟩

def zeroed (size : Nat) : Buffer := ⟨size, #[], Nat.zero_le size⟩

def ofList (bs : Bytes) : Buffer := ⟨bs.toArray.size, bs.toArray, Nat.le_refl _⟩

def toList (b : Buffer) : Bytes := b.front.toList ++ List.replicate (b.size - b.front.size) 0

def clear (_ : Buffer) : Buffer := empty

def resize (b : Buffer) (size : Nat) : Buffer :=
  ⟨size, b.front.extract 0 size, by rw [Array.size_extract]; omega⟩

@[simp] theorem toList_zeroed (n : Nat) : (zeroed n).toList = List.replicate n 0 := by
  simp [toList, zeroed]

@[simp] theorem toList_ofList (bs : Bytes) : (ofList bs).toList = bs := by
  simp [toList, ofList]

theorem resize_clear (b : Buffer) (n : Nat) : b.clear.resize n = zeroed n := by
  simp [clear, resize, zeroed, empty]

def overwrite (b : Buffer) (out : Array UInt8) (h : out.size ≤ b.size) : Buffer :=
  ⟨b.size, out ++ b.front.extract out.size b.front.size, by
    have := b.front_le
    rw [Array.size_append, Array.size_extract]; omega⟩

end Buffer

structure Scratch where
  spare : Buffer

namespace Scratch

def empty : Scratch := ⟨.empty⟩

variable {m : Type → Type} [Monad m] {ε α : Type}

def lend (size : Nat) (action : Buffer → StateT Scratch m (Except ε α × Buffer)) :
    StateT Scratch m (Except ε α) := fun slot => do
  let buffer := slot.spare.clear.resize size
  let ((result, buffer), _) ← action buffer .empty
  pure (result, ⟨buffer⟩)

theorem lend_apply (size : Nat) (action : Buffer → StateT Scratch m (Except ε α × Buffer))
    (slot : Scratch) :
    lend size action slot = action (.zeroed size) .empty >>= fun p => pure (p.1.1, ⟨p.1.2⟩) := by
  rw [lend, Buffer.resize_clear]

end Scratch

namespace Lz4

def decodeInto (input : Bytes) (buffer : Buffer) : Except Fault (Nat × Buffer) :=
  match h : decode buffer.size input with
  | .error e => .error e
  | .ok out => .ok (out.size, buffer.overwrite out (decode_size_le h))

theorem decodeInto_of_error {input : Bytes} {buffer : Buffer} {fault : Fault}
    (h : decode buffer.size input = .error fault) : decodeInto input buffer = .error fault := by
  unfold decodeInto
  split
  · rename_i e he
    exact congrArg _ (Except.error.inj (he.symm.trans h))
  · rename_i out hout
    cases hout.symm.trans h

theorem decodeInto_of_ok {input : Bytes} {buffer : Buffer} {out : Array UInt8}
    (h : decode buffer.size input = .ok out) :
    decodeInto input buffer = .ok (out.size, buffer.overwrite out (decode_size_le h)) := by
  unfold decodeInto
  split
  · rename_i e he
    cases he.symm.trans h
  · rename_i out' hout
    obtain rfl := Except.ok.inj (hout.symm.trans h)
    rfl

end Lz4
end Columnar
