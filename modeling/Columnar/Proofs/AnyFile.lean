import Columnar.Proofs.Guarded
import Columnar.Proofs.RoundTrip

/-! Files of unknown origin. Whatever the bytes are, opening them takes no slice out of range and
lets no sum wrap, and it fails in one way only. Once a file is open, the checks have settled where
every row lies, so that a read can fail only for what the bytes of the row's own block hold. -/

namespace Columnar

/-- A read of row `row` through a handle that was used before in any way: one block inside the file
holds the row, and the outcome is what the bytes of that block say of it. -/
structure Table.RowDecided (t : Table) (name : String) (handle : Cursor) (row : Nat)
    (b : BlockRecord) : Prop where
  mem : b ∈ handle.column.blocks.toList
  covers : b.Covers row
  unique : ∀ k ∈ handle.column.blocks.toList, k.Covers row → k = b
  within : b.Within t.data
  formats : ∀ c, Cursor.After t.data handle c → ∀ scratch,
    b.Gives handle.column t.data (fun v => v.textAt? (row - b.startRow.toNat))
      (t.format c row scratch).result
  reads : t.bind name = .ok handle → ∀ c, Cursor.After t.data handle c → ∀ scratch,
    b.Gives handle.column t.data (fun v => v.floatAt? (row - b.startRow.toNat))
      (t.read c row scratch).result
  refuses : t.bind name ≠ .ok handle → ∀ c, Cursor.After t.data handle c → ∀ scratch,
    (t.read c row scratch).result =
      .error (match b.decode handle.column (b.bytesIn t.data) with
        | .error defect => blockError defect
        | .ok _ => .columnRead (.notFloat handle.column.name (.ofNat row)))

namespace Table

variable {t : Table} {column : ColumnRecord} {name : String} {row : Nat}

theorem rowDecided_of_readable (hr : column.Readable t.data t.rowCount)
    (hcol : t.record.column? name = some column) (hrow : row < t.rowCount) :
    ∃ b, t.RowDecided name (.new column) row b := by
  obtain ⟨b, hb, hcov⟩ := hr.tiles.exists_covers (Nat.zero_le row) hrow
  refine ⟨b, hb, hcov, ?_, hr.within b hb, ?_, ?_, ?_⟩
  · intro k hk hkcov
    exact hr.tiles.covers_unique hk hb hkcov hcov
  · intro c hc scratch
    exact format_gives hr hc hb hcov hrow scratch
  · intro hbind c hc scratch
    obtain ⟨k, hk, htype, hnew⟩ := bind_eq_ok.1 hbind
    obtain rfl := Option.some.inj (hcol.symm.trans hk)
    exact read_gives hr htype hc hb hcov hrow scratch
  · intro hbind c hc scratch
    have htype : column.type = .int64 := by
      cases hf : column.type with
      | int64 => rfl
      | float64 => exact absurd (bind_eq_ok.2 ⟨column, hcol, hf, rfl⟩) hbind
    exact read_ints hr htype hc hb hcov hrow scratch

end Table

theorem TableFile.ofContents_error {path : String} {data : Array UInt8} {e : ScanError}
    (h : ofContents path (.ok data) = .error e) :
    ∃ fault, e = .sourceUnavailable (.file path fault) := by
  simp only [ofContents] at h
  split at h
  · rename_i fault hp
    exact ⟨fault, (Except.error.inj h).symm⟩
  · cases h

/-- Opening never leaves the machine's arithmetic, and every later read is decided by one block. -/
theorem TableFile.open_any_bytes (path : String) (data : Array UInt8) :
    Guarded.openFile path (.ok data) = some (ofContents path (.ok data)) ∧
      (∀ e, ofContents path (.ok data) = .error e →
        ∃ fault, e = .sourceUnavailable (.file path fault)) ∧
      ∀ f, ofContents path (.ok data) = .ok f →
        ∀ tableName t, f.table tableName = .ok t →
          ∀ name handle, t.bindAny name = .ok handle →
            ∀ row, row < t.rowCount → ∃ b, t.RowDecided name handle row b := by
  refine ⟨Guarded.openFile_eq path (.ok data), fun e he => ofContents_error he, ?_⟩
  intro f ho tableName t ht name handle hbind row hrow
  obtain ⟨column, hcol, rfl⟩ := Table.bindAny_eq_ok.1 hbind
  exact Table.rowDecided_of_readable (readable ho ht hcol) hcol hrow

theorem twoTables_row_decided : ∃ w f t handle b,
    (TableWriter.newWith Lz4.literalRun).addTables twoTables = .ok w ∧
      TableFile.ofContents "two.tbl" (.ok w.finish.2) = .ok f ∧ f.table "hits" = .ok t ∧
      t.bindAny "n" = .ok handle ∧ 3 < t.rowCount ∧ t.RowDecided "n" handle 3 b := by
  obtain ⟨w, hw, hlen⟩ := twoTables_accepted
  have hholds := TableWriter.holds_of_addTables hw
  have ho := hholds.ofContents_finish hlen "two.tbl"
  obtain ⟨t, ht, hrows, hcols⟩ := hholds.readsBack hlen ho List.mem_cons_self
  have hn := hcols ("n", .ints #[1, -2, 3, -4, 5]) (List.mem_cons_of_mem _ List.mem_cons_self)
  obtain ⟨handle, hbind, -⟩ := hn.handle
  have hrow : 3 < t.rowCount := by
    rw [hrows]
    decide
  obtain ⟨-, -, hany⟩ := TableFile.open_any_bytes "two.tbl" w.finish.2
  obtain ⟨b, hb⟩ := hany _ ho "hits" t ht "n" handle hbind 3 hrow
  exact ⟨w, _, t, handle, b, hw, ho, ht, hbind, hrow, hb⟩

end Columnar
