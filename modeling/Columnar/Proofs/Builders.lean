import Columnar.Proofs.Agreement
import Columnar.Proofs.Calls

/-! Two builders, one rule for the columns. A table in memory looks at one column after the other
and compares it with what it holds; a writer looks at the whole list, with the names seen so far and
the length of the first column. Both stop at the same column for the same reason. -/

namespace Columnar

def StoreError.inTable (table : String) : StoreError → StoreError
  | .duplicateColumn _ column => .duplicateColumn table column
  | e => e

namespace MemoryTable

variable {t : MemoryTable}

theorem add_error {name : String} {values : Values} {e : StoreError}
    (h : t.add name values = .error e) :
    e = .duplicateColumn "<memory>" name ∨
      e = .rowCountMismatch name t.rowCount values.size := by
  unfold add at h
  split at h
  · exact Or.inl (Except.error.inj h).symm
  · split at h
    · cases h
    · split at h
      · exact Or.inr (Except.error.inj h).symm
      · cases h

theorem addColumns_error {columns : List (String × Values)} {e : StoreError}
    (h : t.addColumns columns = .error e) :
    ∃ before name values after u, columns = before ++ (name, values) :: after ∧
      t.addColumns before = .ok u ∧ u.add name values = .error e := by
  induction columns generalizing t with
  | nil => cases h
  | cons column columns ih =>
    obtain ⟨name, values⟩ := column
    rw [addColumns] at h
    cases hadd : t.add name values with
    | error e' =>
      rw [hadd] at h
      obtain rfl := Except.error.inj h
      exact ⟨[], name, values, columns, t, rfl, rfl, hadd⟩
    | ok grown =>
      rw [hadd] at h
      obtain ⟨before, name', values', after, u, hsplit, hbefore, hlast⟩ := ih h
      refine ⟨(name, values) :: before, name', values', after, u, by rw [hsplit]; rfl, ?_, hlast⟩
      rw [addColumns, hadd]
      exact hbefore

theorem errorOf_addColumns {table : String} {seen : List String}
    {columns : List (String × Values)} (hne : t.columns ≠ []) (hseen : ∀ n, n ∈ seen ↔ n ∈ t.names) :
    errorOf (TableWriter.checkColumns table t.rowCount seen columns) =
      (errorOf (t.addColumns columns)).map (·.inTable table) := by
  induction columns generalizing t seen with
  | nil => rfl
  | cons column columns ih =>
    obtain ⟨name, values⟩ := column
    have hfilled : t.columns.isEmpty = false := by simpa using hne
    simp only [TableWriter.checkColumns, addColumns, add, hseen, hfilled, Bool.false_eq_true,
      if_false]
    by_cases hname : name ∈ t.names
    · simp only [if_pos hname]
      rfl
    · by_cases hsize : values.size = t.rowCount
      · simp only [if_neg hname, hsize, ne_eq, not_true_eq_false, if_false]
        refine @ih ⟨t.rowCount, t.columns ++ [(name, values)]⟩ _ (by simp) ?_
        intro n
        simp [names, hseen n, or_comm]
      · simp only [if_neg hname, ne_eq, hsize, not_false_eq_true, if_true]
        rfl

theorem errorOf_checkColumns (table : String) (columns : List (String × Values)) :
    errorOf (TableWriter.checkColumns table (TableWriter.rowsOf columns) [] columns) =
      (errorOf (empty.addColumns columns)).map (·.inTable table) := by
  cases columns with
  | nil => rfl
  | cons column columns =>
    obtain ⟨name, values⟩ := column
    have hfirst : empty.addColumns ((name, values) :: columns) =
        addColumns ⟨values.size, [(name, values)]⟩ columns := rfl
    rw [hfirst, TableWriter.checkColumns, if_neg List.not_mem_nil, TableWriter.rowsOf,
      if_neg (not_not_intro rfl)]
    have hnext : errorOf (TableWriter.checkColumns table values.size [name] columns) = _ :=
      @errorOf_addColumns ⟨values.size, [(name, values)]⟩ table [name] columns (by simp) fun n => by
        simp [names]
    exact hnext

end MemoryTable

namespace TableWriter

variable {w : TableWriter} {input : TableInput}

theorem columns_of_cutFrom {record : TableRecord} (h : record.CutFrom input) :
    record.columns.map (fun c => (c.name, c.type)) =
      input.columns.map fun c => (c.1, c.2.type) := by
  have hcols := h.columns
  generalize record.columns = records at hcols
  generalize input.columns = columns at hcols
  induction hcols with
  | nil => rfl
  | cons hc _ ih => rw [List.map_cons, List.map_cons, ih, hc.name_eq, hc.type_eq]

section Rules

variable (hpos : 0 < input.rowsPerBlock) (hmax : input.rowsPerBlock ≤ BlockHeader.maxRows)
  (hnew : input.name ∉ w.catalog.tables.map TableRecord.name)

include hpos hmax hnew

theorem errorOf_check_of_new :
    errorOf (w.check input.name input.columns input.rowsPerBlock) =
      (errorOf (MemoryTable.empty.addColumns input.columns)).map (·.inTable input.name) := by
  have hname : (w.catalog.table? input.name).isSome = false := by
    simpa [Catalog.table?, List.find?_eq_none] using hnew
  rw [check, if_neg (by omega), if_neg (by simp [hname]), MemoryTable.errorOf_checkColumns]

theorem addTable_of_addColumns_error {e : StoreError}
    (h : MemoryTable.empty.addColumns input.columns = .error e) :
    w.addTable input.name input.columns input.rowsPerBlock =
      (.error (e.inTable input.name), w) := by
  have hcheck := errorOf_check_of_new hpos hmax hnew
  rw [h] at hcheck
  have herror : w.check input.name input.columns input.rowsPerBlock =
      .error (e.inTable input.name) := errorOf_eq_some.1 hcheck
  rcases w.addTable_cases input with ⟨e', hcheck', hadd⟩ | ⟨hok, -⟩
  · rw [herror] at hcheck'
    obtain rfl := Except.error.inj hcheck'
    exact hadd
  · rw [herror] at hok
    cases hok

theorem addTable_of_addColumns_ok {t : MemoryTable}
    (h : MemoryTable.empty.addColumns input.columns = .ok t) :
    (w.addTable input.name input.columns input.rowsPerBlock).1 = .ok () ∨
      ∃ e, (w.addTable input.name input.columns input.rowsPerBlock).1 = .error e ∧
        e.interrupts = true := by
  have hcheck := errorOf_check_of_new hpos hmax hnew
  rw [h] at hcheck
  obtain ⟨u, hok⟩ := errorOf_eq_none.1 hcheck
  cases hresult : (w.addTable input.name input.columns input.rowsPerBlock).1 with
  | ok u => exact Or.inl rfl
  | error e => exact Or.inr ⟨e, rfl, interrupts_of_addTable hok hresult⟩

end Rules

theorem record_of_addColumns {t : MemoryTable}
    (h : MemoryTable.empty.addColumns input.columns = .ok t)
    (hadded : (w.addTable input.name input.columns input.rowsPerBlock).1 = .ok ()) :
    ∃ record, (w.addTable input.name input.columns input.rowsPerBlock).2.catalog.tables =
        w.catalog.tables ++ [record] ∧ record.name = input.name ∧
      record.rowCount = .ofNat t.rowCount ∧
      record.columns.map (fun c => (c.name, c.type)) =
        t.columns.map fun c => (c.1, c.2.type) := by
  obtain ⟨hcols, -⟩ := MemoryTable.addColumns_ok MemoryTable.empty_regular h
  rcases w.addTable_cases input with
    ⟨_, -, hadd⟩ | ⟨-, ⟨length, hfail⟩ | ⟨w', record, hadd, hcut, hcat, -⟩⟩
  · rw [hadd] at hadded
    cases hadded
  · rw [hfail] at hadded
    cases hadded
  · refine ⟨record, by rw [hadd, hcat], hcut.name_eq, ?_, ?_⟩
    · rw [hcut.rows_eq, MemoryTable.rowCount_of_addColumns h]
    · rw [columns_of_cutFrom hcut, hcols]
      rfl

/-- Columns that a table in memory takes one by one are taken by a writer under every new name, and
columns that it refuses are refused there for the same column and the same reason. -/
theorem builders_accept_alike (w : TableWriter) (input : TableInput)
    (hpos : 0 < input.rowsPerBlock) (hmax : input.rowsPerBlock ≤ BlockHeader.maxRows)
    (hnew : input.name ∉ w.catalog.tables.map TableRecord.name) :
    let added := w.addTable input.name input.columns input.rowsPerBlock
    let built := MemoryTable.empty.addColumns input.columns
    ((∃ t, built = .ok t) ↔
      added.1 = .ok () ∨ ∃ e, added.1 = .error e ∧ e.interrupts = true) ∧
    (∀ t, built = .ok t → added.1 = .ok () →
      ∃ record, added.2.catalog.tables = w.catalog.tables ++ [record] ∧ record.name = input.name ∧
        record.rowCount = .ofNat t.rowCount ∧
        record.columns.map (fun c => (c.name, c.type)) =
          t.columns.map fun c => (c.1, c.2.type)) ∧
    ∀ e, built = .error e →
      ∃ before name values after t, input.columns = before ++ (name, values) :: after ∧
        MemoryTable.empty.addColumns before = .ok t ∧ t.add name values = .error e ∧
        (e = .duplicateColumn "<memory>" name ∧
            added = (.error (.duplicateColumn input.name name), w) ∨
          e = .rowCountMismatch name t.rowCount values.size ∧
            added = (.error (.rowCountMismatch name t.rowCount values.size), w)) := by
  intro added built
  have hrefused : ∀ e, built = .error e → added = (.error (e.inTable input.name), w) :=
    fun _ he => addTable_of_addColumns_error hpos hmax hnew he
  refine ⟨⟨?_, ?_⟩, fun t => record_of_addColumns, ?_⟩
  · rintro ⟨t, ht⟩
    exact addTable_of_addColumns_ok hpos hmax hnew ht
  · intro hadded
    cases hbuilt : built with
    | ok t => exact ⟨t, rfl⟩
    | error e =>
      obtain ⟨-, name, values, -, t, -, -, hadd⟩ := MemoryTable.addColumns_error hbuilt
      rw [hrefused e hbuilt] at hadded
      rcases hadded with hok | ⟨e', he', hbroken⟩
      · cases hok
      · obtain rfl := Except.error.inj he'
        rcases MemoryTable.add_error hadd with rfl | rfl <;> cases hbroken
  · intro e he
    obtain ⟨before, name, values, after, t, hsplit, hbefore, hadd⟩ :=
      MemoryTable.addColumns_error he
    refine ⟨before, name, values, after, t, hsplit, hbefore, hadd, ?_⟩
    rw [hrefused e he]
    rcases MemoryTable.add_error hadd with rfl | rfl
    · exact Or.inl ⟨rfl, rfl⟩
    · exact Or.inr ⟨rfl, rfl⟩

theorem emptyColumns_taken_lateName_refused : ∃ w' record,
    (newWith Lz4.literalRun).addTable "void" [("a", .floats #[]), ("b", .ints #[])] 2 =
        (.ok (), w') ∧
      w'.catalog.tables = [record] ∧ record.name = "void" ∧ record.rowCount = 0 ∧
      record.columns.map (fun c => (c.name, c.type)) = [("a", .float64), ("b", .int64)] ∧
      w'.addTable "odd" [("x", .floats #[⟨0⟩, ⟨1⟩]), ("n", .ints #[1, 2]), ("x", .ints #[1])] 2 =
        (.error (.duplicateColumn "odd" "x"), w') := by
  obtain ⟨-, htaken, -⟩ := builders_accept_alike (newWith Lz4.literalRun)
    ⟨"void", [("a", .floats #[]), ("b", .ints #[])], 2⟩ (by decide) (by decide) (by decide)
  obtain ⟨u, hadded⟩ := errorOf_eq_none.1 (show errorOf ((newWith Lz4.literalRun).addTable "void"
    [("a", .floats #[]), ("b", .ints #[])] 2).1 = none by decide +kernel)
  obtain ⟨record, hcat, hname, hrows, hcols⟩ := htaken _ rfl hadded
  let w := ((newWith Lz4.literalRun).addTable "void" [("a", .floats #[]), ("b", .ints #[])] 2).2
  have hw : w.catalog.tables = [record] := hcat
  obtain ⟨-, -, hrefused⟩ := builders_accept_alike w
    ⟨"odd", [("x", .floats #[⟨0⟩, ⟨1⟩]), ("n", .ints #[1, 2]), ("x", .ints #[1])], 2⟩
    (by decide) (by decide) (by simp [hw, hname])
  obtain ⟨-, name, values, -, t, -, -, -, ⟨he, hadd⟩ | ⟨he, -⟩⟩ :=
    hrefused (.duplicateColumn "<memory>" "x") rfl
  · obtain ⟨-, rfl⟩ := StoreError.duplicateColumn.inj he
    exact ⟨w, record, Prod.ext hadded rfl, hcat, hname, hrows, hcols, hadd⟩
  · cases he

end TableWriter
end Columnar
