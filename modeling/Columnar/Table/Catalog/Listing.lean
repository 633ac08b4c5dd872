import Columnar.Table.Catalog
import Columnar.Text.Pretty

/-! The catalog as structured text, fields in the order of their declaration. -/

namespace Columnar

open Text (Tree)

def BlockRecord.tree (b : BlockRecord) : Tree :=
  .record [("start_row", .number b.startRow.toNat), ("num_rows", .number b.rows.toNat),
    ("block_start", .number b.offset.toNat), ("comp_len", .number b.compressed.toNat),
    ("uncomp_len", .number b.uncompressed.toNat)]

def ColumnRecord.tree (c : ColumnRecord) : Tree :=
  .record [("name", .text c.name), ("phys", .text c.type.name),
    ("blocks", .list (c.blocks.toList.map BlockRecord.tree))]

def TableRecord.tree (t : TableRecord) : Tree :=
  .record [("name", .text t.name), ("row_count", .number t.rowCount.toNat),
    ("columns", .list (t.columns.map ColumnRecord.tree))]

def Catalog.tree (c : Catalog) : Tree := .record [("tables", .list (c.tables.map TableRecord.tree))]

end Columnar
