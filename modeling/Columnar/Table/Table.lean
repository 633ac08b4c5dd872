import Columnar.Table.Cursor
import Columnar.Decimal.Fixed

/-! One table of an open file: its columns by name, its rows by number, and its description. -/

namespace Columnar

structure Table where
  data : Array UInt8
  record : TableRecord

namespace Table

def name (t : Table) : String := t.record.name

def rowCount (t : Table) : Nat := t.record.rowCount.toNat

def column (t : Table) (name : String) : Except ScanError ColumnRecord :=
  match t.record.column? name with
  | some c => .ok c
  | none => .error (.columnNotFound (.absentFrom t.record.name name))

def bindAny (t : Table) (name : String) : Except ScanError Cursor :=
  (t.column name).map Cursor.new

def bind (t : Table) (name : String) : Except ScanError Cursor :=
  match t.column name with
  | .error e => .error e
  | .ok c =>
    if c.type = .float64 then .ok (.new c)
    else .error (.columnNotFound (.storedAs name c.type .float64))

def read (t : Table) (c : Cursor) (row : Nat) (scratch : Scratch) : Access Cursor Binary64 :=
  if t.rowCount ≤ row then .refused c scratch (.invalidRow row t.rowCount)
  else c.floatAt t.data (.ofNat row) scratch

def format (t : Table) (c : Cursor) (row : Nat) (scratch : Scratch) : Access Cursor String :=
  if t.rowCount ≤ row then .refused c scratch (.invalidRow row t.rowCount)
  else c.textAt t.data (.ofNat row) scratch

instance : ColumnSource Table Cursor := ⟨rowCount, bind, read⟩

def padded (width : Nat) (s : String) : String := s.pushn ' ' (width - s.length)

def ratio (c : ColumnRecord) : Binary64 :=
  let compressed := c.compressedBytes
  if compressed = 0 then .ofFloat 1.0
  else .ofFloat (c.uncompressedBytes.toFloat / compressed.toFloat)

def describeColumn (c : ColumnRecord) : String :=
  s!"  {padded 16 c.name} {c.type.name}  blocks={c.blocks.size}" ++
    s!"  compressed={c.compressedBytes.toNat}B  uncompressed={c.uncompressedBytes.toNat}B" ++
    s!"  ratio={Decimal.fixed 2 (ratio c)}\n"

def describe (t : Table) : String :=
  s!"Table {t.name}: {t.rowCount} rows, {t.record.columns.length} columns\n" ++
    String.join (t.record.columns.map describeColumn)

end Table
end Columnar
