import Columnar.Proofs.Tiling
import Columnar.Table.Table

/-! Reading through a cursor that has been used before. What a cursor has at hand is what some block
of its column decodes to, and every call keeps it so. A row lies in one block only, so a read gives
what the bytes of that block say of the row: its value, or their defect. -/

namespace Columnar
namespace BlockRecord

def decode (b : BlockRecord) (column : ColumnRecord) (compressed : Bytes) :
    Except BlockDefect Values :=
  match decompress compressed b.uncompressed.toNat with
  | .error defect => .error defect
  | .ok bs =>
    match BlockView.parse bs with
    | .error fault => .error (.malformed fault)
    | .ok view =>
      if view.type ≠ column.type ∨ view.header.rowCount ≠ b.rows then
        .error (.contradicts column.name b.offset view.header.rowCount view.type b.rows column.type)
      else .ok view.values

def bytesIn (b : BlockRecord) (data : Array UInt8) : Bytes :=
  (data.extract b.offset.toNat (b.offset.toNat + b.compressed.toNat)).toList

def Within (b : BlockRecord) (data : Array UInt8) : Prop :=
  b.offset.toNat + b.compressed.toNat < addressSize ∧
    b.offset.toNat + b.compressed.toNat ≤ data.size

instance (b : BlockRecord) (data : Array UInt8) : Decidable (b.Within data) :=
  inferInstanceAs (Decidable (_ ∧ _))

theorem contents_eq_decode {b : BlockRecord} {data : Array UInt8} (h : b.Within data)
    (column : ColumnRecord) :
    b.contents column data = (b.decode column (b.bytesIn data)).mapError blockError := by
  have hr : b.range data.size = .ok (b.offset.toNat, b.offset.toNat + b.compressed.toNat) := by
    have hs := Nat.lt_of_le_of_lt (Nat.le_add_right _ _) h.1
    simp only [range, Nat.not_le.2 hs, Nat.not_le.2 h.1, Nat.not_lt.2 h.2, if_false]
  simp only [contents, hr, decode, bytesIn]
  cases decompress (data.extract b.offset.toNat (b.offset.toNat + b.compressed.toNat)).toList
      b.uncompressed.toNat with
  | error defect => rfl
  | ok bs =>
    simp only [valuesOf]
    cases BlockView.parse bs with
    | error fault => rfl
    | ok view =>
      dsimp only
      split <;> rfl

theorem decode_ok {b : BlockRecord} {column : ColumnRecord} {bs : Bytes} {values : Values}
    (h : b.decode column bs = .ok values) :
    values.type = column.type ∧ values.size = b.rows.toNat := by
  simp only [decode] at h
  split at h
  · cases h
  · split at h
    · cases h
    · rename_i view hv
      split at h
      · cases h
      · rename_i hc
        obtain ⟨ht, hr⟩ := not_or.1 hc
        obtain rfl := Except.ok.inj h
        exact ⟨by rw [BlockView.type_values, Decidable.not_not.1 ht],
          by rw [BlockView.size_values, BlockView.rowCount, Decidable.not_not.1 hr]⟩

/-- A read of which only the block's bytes decide: the value that `pick` finds among the decoded
ones, or the defect. -/
def Gives {α : Type} (b : BlockRecord) (column : ColumnRecord) (data : Array UInt8)
    (pick : Values → Option α) (result : Except ScanError α) : Prop :=
  match b.decode column (b.bytesIn data) with
  | .error defect => result = .error (blockError defect)
  | .ok values => ∃ x, pick values = some x ∧ result = .ok x

theorem Gives.unique {α : Type} {b : BlockRecord} {column : ColumnRecord} {data : Array UInt8}
    {pick : Values → Option α} {r s : Except ScanError α} (hr : b.Gives column data pick r)
    (hs : b.Gives column data pick s) : r = s := by
  unfold Gives at hr hs
  cases hd : b.decode column (b.bytesIn data) with
  | error defect =>
    rw [hd] at hr hs
    exact hr.trans hs.symm
  | ok values =>
    rw [hd] at hr hs
    obtain ⟨x, hx, rfl⟩ := hr
    obtain ⟨y, hy, rfl⟩ := hs
    rw [hx] at hy
    rw [Option.some.inj hy]

end BlockRecord

/-- The blocks of a column tile its rows and lie in the file. -/
structure ColumnRecord.Readable (c : ColumnRecord) (data : Array UInt8) (rows : Nat) : Prop where
  tiles : Tiles 0 c.blocks.toList rows
  rows_lt : rows < UInt64.size
  within : ∀ b ∈ c.blocks.toList, b.Within data

namespace Cursor

def Sound (c : Cursor) (data : Array UInt8) : Prop :=
  ∀ block, c.current = some block →
    ∃ b ∈ c.column.blocks.toList, b.contents c.column data = .ok block.values ∧
      block.startRow = b.startRow

theorem new_sound (column : ColumnRecord) (data : Array UInt8) : (new column).Sound data := by
  intro block h
  cases h

theorem record?_mem {c : Cursor} {row : UInt64} {b : BlockRecord} (h : c.record? row = some b) :
    b ∈ c.column.blocks.toList := by
  obtain ⟨i, -, hb⟩ := Option.bind_eq_some_iff.1 h
  obtain ⟨hi, rfl⟩ := Array.getElem?_eq_some_iff.1 hb
  exact Array.getElem_mem_toList hi

theorem fetch_cases (c : Cursor) (data : Array UInt8) (row : UInt64) (scratch : Scratch) :
    (∃ e, (c.fetch data row scratch).result = .error e ∧ (c.fetch data row scratch).handle = c) ∨
      ∃ b ∈ c.column.blocks.toList, ∃ values, b.contents c.column data = .ok values ∧
        (c.fetch data row scratch).result = .ok () ∧
        (c.fetch data row scratch).handle = ⟨c.column, some ⟨b.startRow, values⟩⟩ := by
  unfold fetch
  cases hb : c.record? row with
  | none => exact Or.inl ⟨_, rfl, rfl⟩
  | some b =>
    have hf := b.fetch_eq_contents c.column data scratch
    rcases hfetch : b.fetch c.column data scratch with ⟨e | values, scratch'⟩
    · simp only [hfetch]
      exact Or.inl ⟨e, rfl, rfl⟩
    · simp only [hfetch] at hf ⊢
      exact Or.inr ⟨b, record?_mem hb, values, hf.symm, trivial, rfl⟩

theorem seek_sound {c : Cursor} {data : Array UInt8} (h : c.Sound data) (row : UInt64)
    (scratch : Scratch) : (c.seek data row scratch).handle.Sound data ∧
      (c.seek data row scratch).handle.column = c.column := by
  simp only [seek, Access.andThen]
  split
  · exact ⟨h, rfl⟩
  · rcases c.fetch_cases data row scratch with ⟨e, -, hh⟩ | ⟨b, hb, values, hc, -, hh⟩
    · rw [hh]
      exact ⟨h, rfl⟩
    · rw [hh]
      refine ⟨fun block hblock => ?_, rfl⟩
      obtain rfl := Option.some.inj hblock
      exact ⟨b, hb, hc, rfl⟩

theorem record?_of_covers {c : Cursor} {data : Array UInt8} {rows : Nat}
    (hr : c.column.Readable data rows) {row : UInt64} {b : BlockRecord}
    (hb : b ∈ c.column.blocks.toList) (hcov : b.Covers row.toNat) : c.record? row = some b := by
  obtain ⟨i, hi, rfl⟩ := List.mem_iff_getElem.1 hb
  rw [Array.length_toList] at hi
  rw [Array.getElem_toList] at hcov
  rw [record?, ColumnRecord.blockIndex?_of_covers hr.tiles hr.rows_lt hi hcov, Option.bind_some,
    Array.getElem?_eq_getElem hi, Array.getElem_toList]

theorem contains_iff_covers {c : Cursor} {data : Array UInt8} {rows : Nat}
    (hr : c.column.Readable data rows) {b : BlockRecord} (hb : b ∈ c.column.blocks.toList)
    {values : Values} (hv : b.contents c.column data = .ok values) {row : UInt64} :
    (CachedBlock.mk b.startRow values).contains row = true ↔ b.Covers row.toNat := by
  have hbounds := (hr.tiles.bounds hb).2.2
  have hlt := hr.rows_lt
  rw [BlockRecord.contents_eq_decode (hr.within b hb)] at hv
  cases hd : b.decode c.column (b.bytesIn data) with
  | error defect =>
    rw [hd] at hv
    cases hv
  | ok found =>
    rw [hd] at hv
    obtain rfl : found = values := Except.ok.inj hv
    have hsize := (BlockRecord.decode_ok hd).2
    simp only [CachedBlock.contains, Bool.and_eq_true, decide_eq_true_eq, UInt64.le_iff_toNat_le,
      UInt64.lt_iff_toNat_lt, UInt64.toNat_add, UInt64.toNat_ofNat', hsize]
    have hu : UInt64.size = 2 ^ 64 := rfl
    rw [Nat.mod_eq_of_lt (show b.rows.toNat < 2 ^ 64 by omega),
      Nat.mod_eq_of_lt (show b.startRow.toNat + b.rows.toNat < 2 ^ 64 by omega)]
    exact Iff.rfl

theorem fetch_result {c : Cursor} (data : Array UInt8) {row : UInt64} {b : BlockRecord}
    (h : c.record? row = some b) (scratch : Scratch) :
    ((c.fetch data row scratch).andThen fun () =>
        (c.fetch data row scratch).handle.atHand).result =
      (b.contents c.column data).map (CachedBlock.mk b.startRow) := by
  have hf := b.fetch_eq_contents c.column data scratch
  unfold fetch
  simp only [h]
  rcases hfetch : b.fetch c.column data scratch with ⟨e | values, scratch'⟩ <;>
    rw [← hf, hfetch] <;> rfl

theorem seek_result {c : Cursor} {data : Array UInt8} {rows : Nat}
    (hr : c.column.Readable data rows) (hs : c.Sound data) {row : UInt64} {b : BlockRecord}
    (hb : b ∈ c.column.blocks.toList) (hcov : b.Covers row.toNat) (scratch : Scratch) :
    (c.seek data row scratch).result =
      (b.contents c.column data).map (CachedBlock.mk b.startRow) := by
  unfold seek
  by_cases hh : c.hits row = true
  · obtain ⟨⟨start, values⟩, hcur, hc⟩ := (Option.any_eq_true _ _).1 hh
    obtain ⟨k, hk, hv, hstart⟩ := hs _ hcur
    obtain rfl : start = k.startRow := hstart
    obtain rfl := hr.tiles.covers_unique hk hb ((contains_iff_covers hr hk hv).1 hc) hcov
    rw [if_pos hh, show k.contents c.column data = .ok values from hv]
    simp only [Access.andThen, atHand, hcur]
    rfl
  · rw [if_neg hh]
    exact fetch_result data (record?_of_covers hr hb hcov) scratch

theorem place_toNat {start row : UInt64} {values : Values} (h : start.toNat ≤ row.toNat) :
    (CachedBlock.mk start values).place row = row.toNat - start.toNat := by
  rw [CachedBlock.place, UInt64.toNat_sub_of_le _ _ (UInt64.le_iff_toNat_le.2 h)]

theorem seek_andThen {α : Type} {c : Cursor} {data : Array UInt8} {rows : Nat}
    (hr : c.column.Readable data rows) (hs : c.Sound data) {row : UInt64} {b : BlockRecord}
    (hb : b ∈ c.column.blocks.toList) (hcov : b.Covers row.toNat) (scratch : Scratch)
    (next : CachedBlock → Except ScanError α) :
    ((c.seek data row scratch).andThen next).result =
      match b.decode c.column (b.bytesIn data) with
      | .error defect => .error (blockError defect)
      | .ok values => next ⟨b.startRow, values⟩ := by
  rw [Access.andThen]
  simp only [seek_result hr hs hb hcov scratch, BlockRecord.contents_eq_decode (hr.within b hb)]
  cases b.decode c.column (b.bytesIn data) <;> rfl

theorem gives_of_seek {α : Type} {c : Cursor} {data : Array UInt8} {rows : Nat}
    (hr : c.column.Readable data rows) (hs : c.Sound data) {row : UInt64} {b : BlockRecord}
    (hb : b ∈ c.column.blocks.toList) (hcov : b.Covers row.toNat) (scratch : Scratch)
    {pick : Values → Option α} {next : CachedBlock → Except ScanError α}
    (hnext : ∀ values, values.type = c.column.type → values.size = b.rows.toNat →
      ∃ x, pick values = some x ∧ next ⟨b.startRow, values⟩ = .ok x) :
    b.Gives c.column data pick ((c.seek data row scratch).andThen next).result := by
  rw [seek_andThen hr hs hb hcov, BlockRecord.Gives]
  cases hd : b.decode c.column (b.bytesIn data) with
  | error defect => rfl
  | ok values =>
    obtain ⟨ht, hsize⟩ := BlockRecord.decode_ok hd
    exact hnext values ht hsize

/-- The states of a handle after calls on it, made through any tables of the file, with whatever
other calls left in the scratch slot. -/
inductive After (data : Array UInt8) (start : Cursor) : Cursor → Prop
  | none : After data start start
  | read {c : Cursor} (record : TableRecord) (row : Nat) (scratch : Scratch)
      (before : After data start c) : After data start (Table.read ⟨data, record⟩ c row scratch).handle
  | format {c : Cursor} (record : TableRecord) (row : Nat) (scratch : Scratch)
      (before : After data start c) :
      After data start (Table.format ⟨data, record⟩ c row scratch).handle

theorem After.sound {data : Array UInt8} {column : ColumnRecord} {c : Cursor}
    (h : After data (.new column) c) : c.Sound data ∧ c.column = column := by
  induction h with
  | none => exact ⟨new_sound column data, rfl⟩
  | @read c record row scratch before ih =>
    unfold Table.read
    split
    · exact ih
    · obtain ⟨hs, hc⟩ := seek_sound ih.1 (.ofNat row) scratch
      exact ⟨hs, hc.trans ih.2⟩
  | @format c record row scratch before ih =>
    unfold Table.format
    split
    · exact ih
    · obtain ⟨hs, hc⟩ := seek_sound ih.1 (.ofNat row) scratch
      exact ⟨hs, hc.trans ih.2⟩

end Cursor

theorem Values.exists_textAt? {v : Values} {row : Nat} (h : row < v.size) :
    ∃ text, v.textAt? row = some text := by
  cases v <;> exact ⟨_, by rw [textAt?, Array.getElem?_eq_getElem h]; rfl⟩

namespace Table

variable {t : Table} {column : ColumnRecord} {c : Cursor} {b : BlockRecord} {row : Nat}

theorem toNat_row (h : row < t.rowCount) : (UInt64.ofNat row).toNat = row :=
  UInt64.toNat_ofNat_of_lt' (Nat.lt_trans h t.record.rowCount.toNat_lt)

theorem read_gives (hr : column.Readable t.data t.rowCount) (hf : column.type = .float64)
    (hc : Cursor.After t.data (.new column) c) (hb : b ∈ column.blocks.toList) (hcov : b.Covers row)
    (hrow : row < t.rowCount) (scratch : Scratch) :
    b.Gives column t.data (fun v => v.floatAt? (row - b.startRow.toNat))
      (t.read c row scratch).result := by
  obtain ⟨hs, rfl⟩ := hc.sound
  have hn := toNat_row hrow
  rw [read, if_neg (Nat.not_le.2 hrow), Cursor.floatAt]
  refine Cursor.gives_of_seek hr hs hb (by rwa [hn]) scratch fun values ht hsize => ?_
  cases values with
  | ints xs => cases ht.trans hf
  | floats xs =>
    have hlt : row - b.startRow.toNat < xs.size := by
      rw [show xs.size = b.rows.toNat from hsize]
      have := hcov.1
      have := hcov.2
      omega
    refine ⟨xs[row - b.startRow.toNat], Array.getElem?_eq_getElem hlt, ?_⟩
    rw [Cursor.floatIn, Cursor.place_toNat (by rw [hn]; exact hcov.1), hn]
    simp only [Values.floatAt?, Array.getElem?_eq_getElem hlt]

theorem read_ints (hr : column.Readable t.data t.rowCount) (hi : column.type = .int64)
    (hc : Cursor.After t.data (.new column) c) (hb : b ∈ column.blocks.toList) (hcov : b.Covers row)
    (hrow : row < t.rowCount) (scratch : Scratch) :
    (t.read c row scratch).result =
      .error (match b.decode column (b.bytesIn t.data) with
        | .error defect => blockError defect
        | .ok _ => .columnRead (.notFloat column.name (.ofNat row))) := by
  obtain ⟨hs, rfl⟩ := hc.sound
  rw [read, if_neg (Nat.not_le.2 hrow), Cursor.floatAt,
    Cursor.seek_andThen hr hs hb (by rwa [toNat_row hrow])]
  cases hd : b.decode c.column (b.bytesIn t.data) with
  | error defect => rfl
  | ok values =>
    cases values with
    | floats xs => cases (BlockRecord.decode_ok hd).1.trans hi
    | ints xs => rfl

theorem format_gives (hr : column.Readable t.data t.rowCount)
    (hc : Cursor.After t.data (.new column) c) (hb : b ∈ column.blocks.toList) (hcov : b.Covers row)
    (hrow : row < t.rowCount) (scratch : Scratch) :
    b.Gives column t.data (fun v => v.textAt? (row - b.startRow.toNat))
      (t.format c row scratch).result := by
  obtain ⟨hs, rfl⟩ := hc.sound
  have hn := toNat_row hrow
  rw [format, if_neg (Nat.not_le.2 hrow), Cursor.textAt]
  refine Cursor.gives_of_seek hr hs hb (by rwa [hn]) scratch fun values ht hsize => ?_
  have hlt : row - b.startRow.toNat < values.size := by
    rw [hsize]
    have := hcov.1
    have := hcov.2
    omega
  obtain ⟨s, hpick⟩ := Values.exists_textAt? hlt
  refine ⟨s, hpick, ?_⟩
  rw [Cursor.textIn, Cursor.place_toNat (by rw [hn]; exact hcov.1), hn]
  simp only [hpick]

end Table
end Columnar
