import Columnar.Block.Format

/-! The catalog of a table file: its tables, their columns, and for each column the blocks that hold
its rows, in row order. Rows, offsets and lengths are the fixed-width words of the file; sums of
them wrap as those words do. -/

namespace Columnar

structure BlockRecord where
  startRow : UInt64
  rows : UInt32
  offset : UInt64
  compressed : UInt32
  uncompressed : UInt32
  deriving Repr, DecidableEq

namespace BlockRecord

def endRow (b : BlockRecord) : UInt64 := b.startRow + b.rows.toUInt64

def contains (b : BlockRecord) (row : UInt64) : Bool := b.startRow ≤ row && row < b.endRow

end BlockRecord

/-- The first index from `low` on, below `high`, at which `p` fails, or `high`, for a `p` that does
not hold again once it has failed. -/
def partitionPoint (p : Nat → Bool) (low high : Nat) : Nat :=
  if low < high then
    let middle := (low + high) / 2
    if p middle then partitionPoint p (middle + 1) high else partitionPoint p low middle
  else low
termination_by high - low
decreasing_by all_goals omega

structure ColumnRecord where
  name : String
  type : ValueType
  blocks : Array BlockRecord
  deriving Repr, DecidableEq

namespace ColumnRecord

def compressedBytes (c : ColumnRecord) : UInt64 :=
  c.blocks.foldl (fun sum b => sum + b.compressed.toUInt64) 0

def uncompressedBytes (c : ColumnRecord) : UInt64 :=
  c.blocks.foldl (fun sum b => sum + b.uncompressed.toUInt64) 0

def blockIndex? (c : ColumnRecord) (row : UInt64) : Option Nat :=
  let index := partitionPoint (fun i => c.blocks[i]?.any fun b => b.endRow ≤ row) 0 c.blocks.size
  if c.blocks[index]?.any fun b => b.contains row then some index else none

end ColumnRecord

structure TableRecord where
  name : String
  rowCount : UInt64
  columns : List ColumnRecord
  deriving Repr, DecidableEq

def TableRecord.column? (t : TableRecord) (name : String) : Option ColumnRecord :=
  t.columns.find? fun c => c.name = name

structure Catalog where
  tables : List TableRecord
  deriving Repr, DecidableEq

def Catalog.empty : Catalog := ⟨[]⟩

def Catalog.table? (c : Catalog) (name : String) : Option TableRecord :=
  c.tables.find? fun t => t.name = name

end Columnar
