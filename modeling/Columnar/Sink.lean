import Columnar.Error

/-! An output that may have room for a fixed number of bytes. Bytes are accepted until it is full; a
write that does not fit fails after the part that does, and the writes after it are not tried. -/

namespace Columnar

structure Sink where
  room : Option Nat
  taken : Array UInt8

namespace Sink

def unlimited : Sink := ⟨none, #[]⟩
def ofRoom (room : Nat) : Sink := ⟨some room, #[]⟩

def write (s : Sink) (bs : Bytes) : Except IoFault Unit × Sink :=
  match s.room with
  | none => (.ok (), ⟨none, s.taken ++ bs⟩)
  | some room =>
    if bs.length ≤ room then (.ok (), ⟨some (room - bs.length), s.taken ++ bs⟩)
    else (.error .outputFull, ⟨some 0, s.taken ++ bs.take room⟩)

def writeAll (s : Sink) : List String → Except IoFault Unit × Sink
  | [] => (.ok (), s)
  | piece :: pieces =>
    match s.write (Utf8.encode piece) with
    | (.ok (), s) => writeAll s pieces
    | (.error e, s) => (.error e, s)

def bytesOf (pieces : List String) : Bytes := pieces.flatMap Utf8.encode

theorem writeAll_unlimited (taken : Array UInt8) (pieces : List String) :
    writeAll ⟨none, taken⟩ pieces = (.ok (), ⟨none, taken ++ bytesOf pieces⟩) := by
  induction pieces generalizing taken with
  | nil => simp [writeAll, bytesOf]
  | cons p ps ih =>
    rw [writeAll]
    simp only [write]
    rw [ih]
    congr 2
    apply Array.ext'
    simp [bytesOf]

end Sink
end Columnar
