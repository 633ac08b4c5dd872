import Columnar.Proofs.InMemory
import Columnar.Proofs.RoundTrip

/-! One scan, two sources. The columns that were written to a file and those that were added to a
table in memory are the same, and both sources are steady and present just these columns. What a
pass gives depends on nothing else, so it gives the same over both, and over both it counts every
row once. -/

namespace Columnar

theorem find?_of_mem {columns : List (String × Values)} (hn : (columns.map Prod.fst).Nodup)
    {c : String × Values} (hc : c ∈ columns) : columns.find? (fun d => d.1 = c.1) = some c := by
  have hsame : List.Forall₂ (fun a b : String × Values => a = b) columns columns :=
    List.forall₂_same.2 fun _ _ => rfl
  obtain ⟨a, ha, rfl⟩ := forall₂_find? (fun _ _ h => congrArg Prod.fst h) hsame hn hc
  exact ha

namespace Table

variable {t : Table} {input : TableInput}

theorem column_of_stores (hst : t.record.Stores t.data input) (hreg : input.Regular)
    {name : String} {xs : Array Binary64} (h : floatColumn input.columns name = some xs) :
    ∃ column, t.record.column? name = some column ∧ column.Stores t.data name (.floats xs) ∧
      xs.size = TableWriter.rowsOf input.columns := by
  have hmem := List.mem_of_find?_eq_some (floatColumn_eq_some h)
  obtain ⟨column, hcol, hcs⟩ := forall₂_find? (fun _ _ hc => hc.name_eq) hst.columns
    hreg.nodup hmem
  exact ⟨column, hcol, hcs, hreg.size_eq _ hmem⟩

theorem type_of_stores (hst : t.record.Stores t.data input) (hreg : input.Regular)
    {name : String} {column : ColumnRecord} (h : floatColumn input.columns name = none)
    (hcol : t.record.column? name = some column) : column.type ≠ .float64 := by
  intro hf
  obtain ⟨⟨n, v⟩, hp, hcs⟩ :=
    forall₂_exists_right hst.columns (List.mem_of_find?_eq_some hcol)
  have hfound : column.name = name := by simpa using List.find?_some hcol
  have hname : n = name := hcs.name_eq.symm.trans hfound
  have hfind := find?_of_mem hreg.nodup hp
  cases v with
  | floats xs =>
    rw [floatColumn, ← hname, hfind] at h
    cases h
  | ints xs => cases hf.symm.trans hcs.type_eq

theorem presents_of_stores (hst : t.record.Stores t.data input) (hreg : input.Regular)
    (hrows : t.rowCount = TableWriter.rowsOf input.columns)
    (hread : ∀ name column, t.record.column? name = some column →
      column.Readable t.data t.rowCount) :
    ColumnSource.Presents t (floatColumn input.columns) := by
  refine ⟨fun name h => ?_, fun name xs h => ?_, fun name xs h row hrow => ?_⟩
  · change ∃ fault, t.bind name = _
    unfold bind Table.column
    cases hcol : t.record.column? name with
    | none => exact ⟨_, rfl⟩
    | some column =>
      dsimp only
      rw [if_neg (type_of_stores hst hreg h hcol)]
      exact ⟨_, rfl⟩
  · obtain ⟨column, hcol, hcs, -⟩ := column_of_stores hst hreg h
    exact ⟨_, bind_eq_ok.2 ⟨column, hcol, hcs.type_eq, rfl⟩⟩
  · obtain ⟨column, hcol, hcs, hrowsOf⟩ := column_of_stores hst hreg h
    have hsize : xs.size = t.rowCount := hrowsOf.trans hrows.symm
    have hb : ColumnSource.bind t name = .ok (.new column) :=
      bind_eq_ok.2 ⟨column, hcol, hcs.type_eq, rfl⟩
    have hres := read_stored (hread name column hcol) hcs hsize .none row .empty
    have hlt : row < xs.size := hsize.symm ▸ hrow
    rw [Array.getElem?_eq_getElem hlt] at hres ⊢
    rw [ColumnSource.freshValue, hb]
    exact hres

end Table

theorem MemoryTable.rowCount_of_addColumns {t : MemoryTable} {columns : List (String × Values)}
    (h : empty.addColumns columns = .ok t) : t.rowCount = TableWriter.rowsOf columns := by
  obtain ⟨hcols, hreg⟩ := addColumns_ok empty_regular h
  cases columns with
  | nil =>
    obtain rfl := Except.ok.inj h
    rfl
  | cons c columns =>
    obtain ⟨name, values⟩ := c
    refine (hreg (name, values) ?_).symm
    rw [hcols]
    exact List.mem_append_right _ List.mem_cons_self

namespace Pass

/-- Both passes miss a column, or both give the same tally. -/
def Agree (r s : Except ScanError Tally) : Prop :=
  (∃ e e', r = .error (.columnNotFound e) ∧ s = .error (.columnNotFound e')) ∨
    ∃ tally, r = .ok tally ∧ s = .ok tally

theorem run_agree {σ η σ' η' : Type} [ColumnSource σ η] [ColumnSource σ' η'] {source : σ}
    {source' : σ'} {columns : String → Option (Array Binary64)}
    (hs : ColumnSource.Steady source) (hp : ColumnSource.Presents source columns)
    (hs' : ColumnSource.Steady source') (hp' : ColumnSource.Presents source' columns)
    (hrows : ColumnSource.rowCount source = ColumnSource.rowCount source')
    (options : ScanOptions) (scratch scratch' : Scratch) :
    Agree (run source options scratch).result (run source' options scratch').result := by
  cases hx : columns options.x with
  | none =>
    obtain ⟨e, he⟩ := run_missing hs hp (Or.inl hx) scratch
    obtain ⟨e', he'⟩ := run_missing hs' hp' (Or.inl hx) scratch'
    exact Or.inl ⟨e, e', he, he'⟩
  | some xs =>
    cases hy : columns options.y with
    | none =>
      obtain ⟨e, he⟩ := run_missing hs hp (Or.inr (Or.inl hy)) scratch
      obtain ⟨e', he'⟩ := run_missing hs' hp' (Or.inr (Or.inl hy)) scratch'
      exact Or.inl ⟨e, e', he, he'⟩
    | some ys =>
      cases hz : columns options.z with
      | none =>
        obtain ⟨e, he⟩ := run_missing hs hp (Or.inr (Or.inr hz)) scratch
        obtain ⟨e', he'⟩ := run_missing hs' hp' (Or.inr (Or.inr hz)) scratch'
        exact Or.inl ⟨e, e', he, he'⟩
      | some zs =>
        refine Or.inr ⟨_, run_presents hs hp hx hy hz scratch, ?_⟩
        rw [run_presents hs' hp' hx hy hz scratch', hrows]

end Pass

theorem TableWriter.Holds.presents {w : TableWriter} {inputs : List TableInput}
    (h : w.Holds inputs) (hlen : w.catalog.encode.length < UInt32.size) {path : String}
    {f : TableFile} (ho : TableFile.ofContents path (.ok w.finish.2) = .ok f)
    {input : TableInput} (hi : input ∈ inputs) :
    ∃ t, f.table input.name = .ok t ∧ t.rowCount = rowsOf input.columns ∧
      ColumnSource.Steady t ∧ ColumnSource.Presents t (floatColumn input.columns) := by
  obtain ⟨t, ht, hrows, hst⟩ := h.exists_table hlen ho hi
  exact ⟨t, ht, hrows, TableFile.steady ho ht,
    Table.presents_of_stores hst (h.regular input hi) hrows fun _ _ hcol =>
      TableFile.readable ho ht hcol⟩

/-- A scan of a table that went through a file agrees with the scan of the same columns in memory,
whatever other tables the file has. -/
theorem Pass.run_file_agrees (encoder : Lz4.Encoder) (before after : List TableInput)
    (input : TableInput) (w : TableWriter) (t : MemoryTable) (path : String)
    (options : ScanOptions) (scratch scratch' : Scratch)
    (hw : (TableWriter.newWith encoder).addTables (before ++ input :: after) = .ok w)
    (hlen : w.catalog.encode.length < UInt32.size)
    (ht : MemoryTable.empty.addColumns input.columns = .ok t) :
    ∃ f onDisk, TableFile.ofContents path (.ok w.finish.2) = .ok f ∧
      f.table input.name = .ok onDisk ∧
      Agree (run onDisk options scratch).result (run t options scratch').result := by
  have hholds := TableWriter.holds_of_addTables hw
  have ho := hholds.ofContents_finish hlen path
  have hmem : input ∈ before ++ input :: after :=
    List.mem_append_right before List.mem_cons_self
  obtain ⟨onDisk, hfile, hrows, hs, hp⟩ := hholds.presents hlen ho hmem
  obtain ⟨hcols, hreg⟩ := MemoryTable.addColumns_ok MemoryTable.empty_regular ht
  have hp' : ColumnSource.Presents t (floatColumn input.columns) := by
    have hpt := MemoryTable.presents hreg
    rwa [hcols] at hpt
  refine ⟨_, onDisk, ho, hfile, run_agree hs hp (MemoryTable.steady t) hp' ?_ options _ _⟩
  exact hrows.trans (MemoryTable.rowCount_of_addColumns ht).symm

theorem twoTables_agree : ∃ w t f onDisk,
    (TableWriter.newWith Lz4.literalRun).addTables twoTables = .ok w ∧
      MemoryTable.empty.addColumns [("x", .floats #[⟨0x3FF0000000000000⟩, ⟨0x4000000000000000⟩,
        ⟨0⟩])] = .ok t ∧
      TableFile.ofContents "two.tbl" (.ok w.finish.2) = .ok f ∧ f.table "dots" = .ok onDisk ∧
      Pass.Agree (Pass.run onDisk ⟨"x", "x", "x", .standard⟩ .empty).result
        (Pass.run t ⟨"x", "x", "x", .standard⟩ .empty).result := by
  obtain ⟨w, hw, hlen⟩ := twoTables_accepted
  obtain ⟨f, onDisk, ho, ht, hagree⟩ := Pass.run_file_agrees Lz4.literalRun twoTables.dropLast []
    ⟨"dots", [("x", .floats #[⟨0x3FF0000000000000⟩, ⟨0x4000000000000000⟩, ⟨0⟩])], 4⟩ w _ "two.tbl"
    ⟨"x", "x", "x", .standard⟩ .empty .empty hw hlen rfl
  exact ⟨w, _, f, onDisk, hw, rfl, ho, ht, hagree⟩

/-- A pass that ends well has counted every row once, over a table in memory and over any table of
an opened file, and the rows of a table in memory may stand in any order. -/
theorem Pass.counts_every_row :
    (∀ (t : MemoryTable) options scratch tally, (run t options scratch).result = .ok tally →
      ∃ x y z, CountsRows t options tally x y z) ∧
    (∀ path contents f name t, TableFile.ofContents path contents = .ok f →
      f.table name = .ok t → ∀ options scratch tally,
        (run t options scratch).result = .ok tally → ∃ x y z, CountsRows t options tally x y z) ∧
    ∀ columns t, MemoryTable.empty.addColumns columns = .ok t →
      ∀ names order, order.Perm (List.range t.rowCount) →
        ∀ options : ScanOptions, options.x ∈ names → options.y ∈ names → options.z ∈ names →
          ∀ scratch scratch', (run (t.reorder names order) options scratch').result =
            (run t options scratch).result := by
  refine ⟨?_, ?_, ?_⟩
  · intro t options scratch tally h
    exact run_counts_rows (MemoryTable.steady t) h
  · intro path contents f name t ho ht options scratch tally h
    exact run_counts_rows (TableFile.steady ho ht) h
  · intro columns t h names order hp options hx hy hz scratch scratch'
    obtain ⟨-, hreg⟩ := MemoryTable.addColumns_ok MemoryTable.empty_regular h
    exact run_reorder hreg hp hx hy hz scratch scratch'

def threeRows : List (String × Values) :=
  [("x", .floats #[⟨0⟩, ⟨1⟩, ⟨0x7FF8000000000000⟩]), ("n", .ints #[1, -2, 3])]

theorem twoTables_count_rows : ∃ w f onDisk tally tally',
    (TableWriter.newWith Lz4.literalRun).addTables twoTables = .ok w ∧
      TableFile.ofContents "two.tbl" (.ok w.finish.2) = .ok f ∧ f.table "hits" = .ok onDisk ∧
      (∃ x y z, Pass.CountsRows onDisk ⟨"x", "x", "x", .standard⟩ tally x y z) ∧
      (∃ x y z, Pass.CountsRows (⟨3, threeRows⟩ : MemoryTable) ⟨"x", "x", "x", .standard⟩
        tally' x y z) ∧
      MemoryTable.empty.addColumns threeRows = .ok ⟨3, threeRows⟩ ∧
      (Pass.run (MemoryTable.reorder ⟨3, threeRows⟩ ["x", "n"] [2, 0, 1])
          ⟨"x", "x", "x", .standard⟩ .empty).result =
        (Pass.run (⟨3, threeRows⟩ : MemoryTable) ⟨"x", "x", "x", .standard⟩ .empty).result := by
  obtain ⟨w, hw, hlen⟩ := twoTables_accepted
  have hholds := TableWriter.holds_of_addTables hw
  have ho := hholds.ofContents_finish hlen "two.tbl"
  obtain ⟨onDisk, ht, -, hs, hp⟩ := hholds.presents hlen ho List.mem_cons_self
  obtain ⟨tally, hrun⟩ :
      ∃ tally, (Pass.run onDisk ⟨"x", "x", "x", .standard⟩ .empty).result = .ok tally :=
    ⟨_, Pass.run_presents hs hp rfl rfl rfl .empty⟩
  have hadd : MemoryTable.empty.addColumns threeRows = .ok ⟨3, threeRows⟩ := rfl
  obtain ⟨hmemory, hfile, horder⟩ := Pass.counts_every_row
  exact ⟨w, _, onDisk, tally, _, hw, ho, ht, hfile _ _ _ _ _ ho ht _ _ _ hrun,
    hmemory ⟨3, threeRows⟩ ⟨"x", "x", "x", .standard⟩ .empty _ rfl, hadd,
    horder threeRows _ hadd ["x", "n"] [2, 0, 1] (by decide) ⟨"x", "x", "x", .standard⟩
      (by decide) (by decide) (by decide) .empty .empty⟩

end Columnar
