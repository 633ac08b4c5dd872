import Columnar.Command.Folder
import Columnar.Command.TableTool
import Columnar.Proofs.Failing
import Columnar.Proofs.Locality
import Columnar.Proofs.Reloading

/-! What a dump shows of a column. The rows are formatted one after the other through one cursor, so
a block is loaded in the row where it starts, and the blocks behind the last row are not looked at.
A block that cannot be loaded ends the dump in its first row, behind all lines of the rows before. -/

namespace Columnar

namespace ColumnRecord

def blocksBelow (c : ColumnRecord) (n : Nat) : List BlockRecord :=
  c.blocks.toList.filter fun b => b.startRow.toNat < n

/-- The line of a row: the row, a comma, and the text that shows the value in the row's block. -/
def Line (c : ColumnRecord) (data : Array UInt8) (row : Nat) (line : String) : Prop :=
  ∃ b ∈ c.blocks.toList, b.Covers row ∧ ∃ values text, b.contents c data = .ok values ∧
    values.textAt? (row - b.startRow.toNat) = some text ∧
    values.Shows (row - b.startRow.toNat) text ∧ line = s!"{row},{text}\n"

end ColumnRecord

namespace Table

section Rows

variable {t : Table} {column : ColumnRecord} {c : Cursor} {row : Nat} {b : BlockRecord}
  (h : c.Past t.data column row) (hr : column.Readable t.data t.rowCount)
  (hrow : row < t.rowCount) (hb : b ∈ column.blocks.toList) (hcov : b.Covers row)
  (scratch : Scratch)

include h hr hrow hb hcov

end Rows

section Run

variable {t : Table} {column : ColumnRecord} (hr : column.Readable t.data t.rowCount)

include hr

theorem mem_blocksBelow {n : Nat} {b : BlockRecord} :
    b ∈ column.blocksBelow n ↔ b ∈ column.blocks.toList ∧ ∃ row < n, b.Covers row := by
  rw [ColumnRecord.blocksBelow, List.mem_filter, decide_eq_true_eq]
  refine and_congr_right fun hb => ⟨fun hlt => ?_, ?_⟩
  · have := (hr.tiles.bounds hb).2.1
    exact ⟨b.startRow.toNat, hlt, by omega, by omega⟩
  · rintro ⟨row, hrow, hcov⟩
    exact hcov.1.trans_lt hrow

end Run

/-- A dump with the lines of the first `rows` rows, for which it loaded the blocks of these rows and
no others. -/
structure Dumped (t : Table) (name : String) (column : ColumnRecord) (limit rows : Nat)
    (result : Except ScanError Unit) : Prop where
  lines : ∃ lines, (t.dump name limit).lines = s!"row,{name}\n" :: lines ∧
    List.Forall₂ (column.Line t.data) (List.range rows) lines
  result : (t.dump name limit).result = result
  loads : (t.dump name limit).loads = (column.blocksBelow rows).map (·.load column)

section Dumped

variable {t : Table} {name : String} {column : ColumnRecord}
  (hcol : t.record.column? name = some column) (hr : column.Readable t.data t.rowCount)
  {limit : Nat}

include hcol

include hr

end Dumped
end Table

theorem forall₂_unique {α β : Type} {R S : α → β → Prop} {xs : List α} {ys zs : List β}
    (h : List.Forall₂ R xs ys) (h' : List.Forall₂ S xs zs)
    (hunique : ∀ x ∈ xs, ∀ y z, R x y → S x z → y = z) : ys = zs := by
  induction h generalizing zs with
  | nil =>
    cases h'
    rfl
  | cons hxy _ ih =>
    cases h' with
    | cons hxz hrest =>
      rw [hunique _ List.mem_cons_self _ _ hxy hxz,
        ih hrest fun x hx => hunique x (List.mem_cons_of_mem _ hx)]

namespace Table

variable {t u : Table} {name : String} {column : ColumnRecord} {limit rows : Nat}
  {result : Except ScanError Unit}

theorem Dumped.unique (h : t.Dumped name column limit rows result)
    (h' : u.Dumped name column limit rows result) (hr : column.Readable t.data t.rowCount)
    (hsame : ∀ b ∈ column.blocksBelow rows, b.contents column t.data = b.contents column u.data) :
    t.dump name limit = u.dump name limit := by
  obtain ⟨lines, hlines, hall⟩ := h.lines
  obtain ⟨lines', hlines', hall'⟩ := h'.lines
  have heq : lines = lines' := by
    refine forall₂_unique hall hall' ?_
    rintro row hrow _ _ ⟨b, hb, hcov, values, text, hv, htext, -, rfl⟩
      ⟨b', hb', hcov', values', text', hv', htext', -, rfl⟩
    obtain rfl := hr.tiles.covers_unique hb hb' hcov hcov'
    rw [hsame b ((mem_blocksBelow hr).2 ⟨hb, row, List.mem_range.1 hrow, hcov⟩), hv'] at hv
    obtain rfl := Except.ok.inj hv
    rw [htext'] at htext
    rw [Option.some.inj htext]
  have hl : (t.dump name limit).lines = (u.dump name limit).lines := by rw [hlines, hlines', heq]
  have hres := h.result.trans h'.result.symm
  have hloads := h.loads.trans h'.loads.symm
  generalize t.dump name limit = d at hl hres hloads
  generalize u.dump name limit = d' at hl hres hloads
  cases d
  cases d'
  cases hl
  cases hres
  cases hloads
  rfl

end Table

namespace Command

section Dump

variable {path : String} {contents : Except String (Array UInt8)} {f : TableFile}
  (ho : TableFile.ofContents path contents = .ok f) {tableName : String} {t : Table}
  (ht : f.table tableName = .ok t) (name : String) (limit : Nat) (d : Folder)
  (hd : d.read path = contents)

include ho hd

include ht

end Dump

end Command

namespace TableFile

section Fixed

variable {path : String} {contents : Except String (Array UInt8)} {f : TableFile}
  (ho : ofContents path contents = .ok f) {tableName : String} {t : Table}
  (ht : f.table tableName = .ok t) {name : String} {column : ColumnRecord}
  (hcol : t.record.column? name = some column) {limit : Nat}

include ho ht hcol

end Fixed

end TableFile
end Columnar
