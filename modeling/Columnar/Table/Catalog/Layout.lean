import Columnar.Table.Catalog

/-! When a catalog fits its file. Table names are distinct, and the column names of each table; the
blocks of a column follow one another from row 0 to the table's row count, none empty, and each lies
between the start and the end of the data. The first fault in catalog order is reported. -/

namespace Columnar

inductive LayoutFault
  | duplicateTable (table : String)
  | duplicateColumn (table column : String)
  | unexpectedStart (table column : String) (start expected : UInt64)
  | emptyBlock (table column : String)
  | outsideData (table column : String) (offset : UInt64)
  | coverage (table column : String) (covered rows : UInt64)
  deriving Repr, DecidableEq

def LayoutFault.message : LayoutFault → String
  | .duplicateTable table => s!"duplicate table {table}"
  | .duplicateColumn table column => s!"{table}: duplicate column {column}"
  | .unexpectedStart table column start expected =>
    s!"{table}.{column}: block starts at row {start.toNat} but {expected.toNat} was expected"
  | .emptyBlock table column => s!"{table}.{column}: empty block"
  | .outsideData table column offset =>
    s!"{table}.{column}: block at offset {offset.toNat} outside data region"
  | .coverage table column covered rows =>
    s!"{table}.{column}: blocks cover {covered.toNat} rows, table has {rows.toNat}"

structure DataRegion where
  start : UInt64
  stop : UInt64

def DataRegion.holds (r : DataRegion) (b : BlockRecord) : Bool :=
  r.start ≤ b.offset && b.offset.toNat + b.compressed.toNat ≤ r.stop.toNat

namespace Layout

def checkBlocks (region : DataRegion) (table column : String) (next : UInt64) :
    List BlockRecord → Except LayoutFault UInt64
  | [] => .ok next
  | b :: bs =>
    if b.startRow ≠ next then .error (.unexpectedStart table column b.startRow next)
    else if b.rows = 0 then .error (.emptyBlock table column)
    else if !region.holds b then .error (.outsideData table column b.offset)
    else checkBlocks region table column b.endRow bs

def checkColumns (region : DataRegion) (table : TableRecord) (seen : List String) :
    List ColumnRecord → Except LayoutFault Unit
  | [] => .ok ()
  | c :: cs =>
    if c.name ∈ seen then .error (.duplicateColumn table.name c.name)
    else
      match checkBlocks region table.name c.name 0 c.blocks.toList with
      | .error e => .error e
      | .ok covered =>
        if covered ≠ table.rowCount then
          .error (.coverage table.name c.name covered table.rowCount)
        else checkColumns region table (c.name :: seen) cs

def checkTables (region : DataRegion) (seen : List String) :
    List TableRecord → Except LayoutFault Unit
  | [] => .ok ()
  | t :: ts =>
    if t.name ∈ seen then .error (.duplicateTable t.name)
    else
      match checkColumns region t [] t.columns with
      | .error e => .error e
      | .ok () => checkTables region (t.name :: seen) ts

end Layout

def Catalog.validate (c : Catalog) (region : DataRegion) : Except LayoutFault Unit :=
  Layout.checkTables region [] c.tables

end Columnar
