import Columnar.Block.Compressed
import Columnar.Scan.Source

/-! Reading one column of a table file. A cursor keeps the block decoded last; a row outside of it is
looked up in the catalog, and its block is decompressed and takes the place of the old one. A block
that cannot be loaded leaves the cursor as it was. -/

namespace Columnar

structure CachedBlock where
  startRow : UInt64
  values : Values
  deriving DecidableEq

namespace CachedBlock

def contains (c : CachedBlock) (row : UInt64) : Bool :=
  c.startRow ≤ row && row < c.startRow + .ofNat c.values.size

def place (c : CachedBlock) (row : UInt64) : Nat := (row - c.startRow).toNat

end CachedBlock

def addressSize : Nat := UInt64.size

def BlockRecord.range (b : BlockRecord) (fileSize : Nat) : Except ReadFault (Nat × Nat) :=
  let start := b.offset.toNat
  let stop := start + b.compressed.toNat
  if addressSize ≤ start then .error (.offsetTooLarge b.offset)
  else if addressSize ≤ stop then .error .rangeOverflow
  else if fileSize < stop then .error (.outOfBounds stop fileSize)
  else .ok (start, stop)

def BlockRecord.valuesOf (b : BlockRecord) (column : ColumnRecord) (bs : Bytes) :
    Except ScanError Values :=
  match BlockView.parse bs with
  | .error fault => .error (blockError (.malformed fault))
  | .ok view =>
    if view.type ≠ column.type ∨ view.header.rowCount ≠ b.rows then
      .error (blockError
        (.contradicts column.name b.offset view.header.rowCount view.type b.rows column.type))
    else .ok view.values

def BlockRecord.fetch (b : BlockRecord) (column : ColumnRecord) (data : Array UInt8) :
    StateM Scratch (Except ScanError Values) :=
  match b.range data.size with
  | .error fault => pure (.error (.columnRead fault))
  | .ok (start, stop) =>
    readCompressed (data.extract start stop).toList b.uncompressed.toNat (b.valuesOf column)

def BlockRecord.contents (b : BlockRecord) (column : ColumnRecord) (data : Array UInt8) :
    Except ScanError Values :=
  match b.range data.size with
  | .error fault => .error (.columnRead fault)
  | .ok (start, stop) =>
    match decompress (data.extract start stop).toList b.uncompressed.toNat with
    | .error defect => .error (blockError defect)
    | .ok bs => b.valuesOf column bs

theorem BlockRecord.fetch_eq_contents (b : BlockRecord) (column : ColumnRecord)
    (data : Array UInt8) (slot : Scratch) :
    (b.fetch column data slot).1 = b.contents column data := by
  unfold fetch contents
  cases b.range data.size with
  | error fault => rfl
  | ok range => exact readCompressed_eq _ _ _ _

def BlockRecord.load (b : BlockRecord) (column : ColumnRecord) : BlockLoad :=
  ⟨column.name, b.rows, b.compressed.toUInt64, b.uncompressed.toUInt64⟩

structure Cursor where
  column : ColumnRecord
  current : Option CachedBlock
  deriving DecidableEq

namespace Cursor

def new (column : ColumnRecord) : Cursor := ⟨column, none⟩

def record? (c : Cursor) (row : UInt64) : Option BlockRecord :=
  (c.column.blockIndex? row).bind fun i => c.column.blocks[i]?

def fetch (c : Cursor) (data : Array UInt8) (row : UInt64) (scratch : Scratch) :
    Access Cursor Unit :=
  match c.record? row with
  | none => .refused c scratch (.columnRead (.noBlock c.column.name row))
  | some b =>
    match b.fetch c.column data scratch with
    | (.error e, scratch) => .refused c scratch e
    | (.ok values, scratch) =>
      ⟨.ok (), ⟨c.column, some ⟨b.startRow, values⟩⟩, some (b.load c.column), scratch⟩

def hits (c : Cursor) (row : UInt64) : Bool := c.current.any fun block => block.contains row

def atHand (c : Cursor) : Except ScanError CachedBlock :=
  match c.current with
  | some block => .ok block
  | none => .error (.columnRead .emptyCache)

def seek (c : Cursor) (data : Array UInt8) (row : UInt64) (scratch : Scratch) :
    Access Cursor CachedBlock :=
  let a := if c.hits row then ⟨.ok (), c, none, scratch⟩ else c.fetch data row scratch
  a.andThen fun () => a.handle.atHand

def floatIn (column : String) (row : UInt64) (block : CachedBlock) : Except ScanError Binary64 :=
  match block.values.floatAt? (block.place row) with
  | some x => .ok x
  | none => .error (.columnRead (.notFloat column row))

def textIn (column : String) (row : UInt64) (block : CachedBlock) : Except ScanError String :=
  match block.values.textAt? (block.place row) with
  | some s => .ok s
  | none => .error (.columnRead (.missingRow column row))

def floatAt (c : Cursor) (data : Array UInt8) (row : UInt64) (scratch : Scratch) :
    Access Cursor Binary64 :=
  (c.seek data row scratch).andThen (floatIn c.column.name row)

def textAt (c : Cursor) (data : Array UInt8) (row : UInt64) (scratch : Scratch) :
    Access Cursor String :=
  (c.seek data row scratch).andThen (textIn c.column.name row)

end Cursor
end Columnar
