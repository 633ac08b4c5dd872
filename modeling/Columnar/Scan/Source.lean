import Columnar.Scratch
import Columnar.Error

/-! Where a scan reads from. A source binds a column of doubles by name to a handle and reads rows
through it. A read returns with its result the handle after it, the block it had to load, if any,
and the scratch slot. -/

namespace Columnar

structure BlockLoad where
  column : String
  rows : UInt32
  compressed : UInt64
  uncompressed : UInt64
  deriving Repr, DecidableEq

structure Access (η α : Type) where
  result : Except ScanError α
  handle : η
  load : Option BlockLoad
  scratch : Scratch

namespace Access

def andThen (a : Access η α) (next : α → Except ScanError β) : Access η β :=
  { a with result := a.result.bind next }

def refused (handle : η) (scratch : Scratch) (error : ScanError) : Access η α :=
  ⟨.error error, handle, none, scratch⟩

end Access

class ColumnSource (σ : Type) (η : outParam Type) where
  rowCount : σ → Nat
  bind : σ → String → Except ScanError η
  read : σ → η → Nat → Scratch → Access η Binary64

end Columnar
