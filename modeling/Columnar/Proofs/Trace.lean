import Columnar.Proofs.Counting
import Columnar.Proofs.MergedOrder
import Columnar.Proofs.RoundTrip

/-! What a pass loads. A cursor that is read row by row keeps the block of the row before, so it loads
a block in the row where the block starts and in no other row. The three handles of a pass together
load their blocks in the merged order, up to the first that cannot be loaded, and the pass ends there
with the error of that block. -/

namespace Columnar

def errorOf {ε α : Type} : Except ε α → Option ε
  | .error e => some e
  | .ok _ => none

theorem errorOf_eq_none {ε α : Type} {r : Except ε α} : errorOf r = none ↔ ∃ x, r = .ok x := by
  cases r <;> simp [errorOf]

theorem errorOf_eq_some {ε α : Type} {r : Except ε α} {e : ε} :
    errorOf r = some e ↔ r = .error e := by
  cases r <;> simp [errorOf]

@[simp] theorem errorOf_mapError {ε δ α : Type} (f : ε → δ) (r : Except ε α) :
    errorOf (r.mapError f) = (errorOf r).map f := by
  cases r <;> rfl

theorem BlockRecord.Gives.errorOf_eq {α : Type} {b : BlockRecord} {column : ColumnRecord}
    {data : Array UInt8} {pick : Values → Option α} {r : Except ScanError α}
    (h : b.Gives column data pick r) (hw : b.Within data) :
    errorOf r = errorOf (b.contents column data) := by
  rw [contents_eq_decode hw, errorOf_mapError]
  unfold Gives at h
  cases hd : b.decode column (b.bytesIn data) with
  | error defect =>
    rw [hd] at h
    rw [h]
    rfl
  | ok values =>
    rw [hd] at h
    obtain ⟨x, -, rfl⟩ := h
    rfl

namespace Visit

def failure? (v : Visit) (data : Array UInt8) : Option ScanError :=
  errorOf (v.block.contents v.column data)

def loadable (data : Array UInt8) (vs : List Visit) : List Visit :=
  vs.takeWhile fun v => (v.failure? data).isNone

variable {data : Array UInt8} {vs ws : List Visit}

theorem loadable_append (h : vs.findSome? (·.failure? data) = none) :
    loadable data (vs ++ ws) = vs ++ loadable data ws := by
  apply List.takeWhile_append_of_pos
  intro v hv
  rw [List.findSome?_eq_none_iff.1 h v hv]
  rfl

theorem loadable_of_none (h : vs.findSome? (·.failure? data) = none) : loadable data vs = vs := by
  have happend : loadable data (vs ++ []) = vs ++ [] := loadable_append h
  rwa [List.append_nil] at happend

theorem loadable_cons_of_some {v : Visit} {e : ScanError} (h : v.failure? data = some e) :
    loadable data (v :: vs) = [] := by
  apply List.takeWhile_cons_of_neg
  rw [h]
  exact Bool.false_ne_true

theorem loadable_append_of_some {e : ScanError} (h : vs.findSome? (·.failure? data) = some e) :
    loadable data (vs ++ ws) = loadable data vs := by
  obtain ⟨before, v, after, rfl, hv, hbefore⟩ := List.findSome?_eq_some_iff.1 h
  have hnone : before.findSome? (·.failure? data) = none := List.findSome?_eq_none_iff.2 hbefore
  rw [List.append_assoc, loadable_append hnone, loadable_append hnone, List.cons_append,
    loadable_cons_of_some hv, loadable_cons_of_some hv]

end Visit

namespace Cursor

/-- The rows before `row` were read through the cursor, one after the other, so it has the block of
the last of them at hand. -/
structure Past (data : Array UInt8) (column : ColumnRecord) (row : Nat) (c : Cursor) : Prop where
  after : After data (.new column) c
  first : row = 0 → c.current = none
  keeps : ∀ last, row = last + 1 → ∃ b ∈ column.blocks.toList, b.Covers last ∧
    ∃ values, b.contents column data = .ok values ∧ c.current = some ⟨b.startRow, values⟩

variable {data : Array UInt8} {column : ColumnRecord} {rows row : Nat} {c : Cursor}
  {b : BlockRecord}

theorem Past.new (data : Array UInt8) (column : ColumnRecord) : Past data column 0 (.new column) :=
  ⟨.none, fun _ => rfl, fun _ h => by cases h⟩

theorem Past.current_of_covers (h : Past data column row c) (hr : column.Readable data rows)
    (hb : b ∈ column.blocks.toList) (hcov : b.Covers row) (hrow : row < UInt64.size) :
    (b.startRow.toNat = row → c.hits (.ofNat row) = false) ∧
      (b.startRow.toNat ≠ row → c.hits (.ofNat row) = true ∧ ∃ values,
        b.contents column data = .ok values ∧ c.current = some ⟨b.startRow, values⟩) := by
  obtain ⟨hs, hcol⟩ := h.after.sound
  have hnat : (UInt64.ofNat row).toNat = row := UInt64.toNat_ofNat_of_lt' hrow
  cases row with
  | zero =>
    have hstart : b.startRow.toNat = 0 := Nat.le_zero.1 hcov.1
    refine ⟨?_, fun hne => absurd hstart hne⟩
    intro _
    rw [hits, h.first rfl]
    rfl
  | succ last =>
    -- The block of the row before is at hand. It has this row too unless another one starts here.
    obtain ⟨k, hk, hkcov, values, hv, hcur⟩ := h.keeps last rfl
    subst hcol
    have hcontains : c.hits (.ofNat (last + 1)) = true ↔ k.Covers (last + 1) := by
      rw [hits, hcur, Option.any_some, contains_iff_covers hr hk hv, hnat]
    refine ⟨?_, ?_⟩
    · intro hstart
      rw [Bool.eq_false_iff, ne_eq, hcontains]
      intro hkcov'
      have hkb := hr.tiles.covers_unique hk hb hkcov' hcov
      subst hkb
      have := hkcov.1
      omega
    · intro hne
      have hbcov : b.Covers last := ⟨by have := hcov.1; omega, by have := hcov.2; omega⟩
      have hkb := hr.tiles.covers_unique hk hb hkcov hbcov
      subst hkb
      exact ⟨hcontains.2 hcov, values, hv, hcur⟩

theorem fetch_of_error {e : ScanError} {row : UInt64} (h : c.record? row = some b)
    (he : b.contents c.column data = .error e) (scratch : Scratch) :
    (c.fetch data row scratch).load = none := by
  have hf := b.fetch_eq_contents c.column data scratch
  unfold fetch
  rcases hfetch : b.fetch c.column data scratch with ⟨e' | values, scratch'⟩
  · simp only [h, hfetch]
    rfl
  · rw [hfetch, he] at hf
    cases hf

theorem fetch_of_ok {values : Values} {row : UInt64} (h : c.record? row = some b)
    (hv : b.contents c.column data = .ok values) (scratch : Scratch) :
    (c.fetch data row scratch).load = some (b.load c.column) ∧
      (c.fetch data row scratch).handle = ⟨c.column, some ⟨b.startRow, values⟩⟩ := by
  have hf := b.fetch_eq_contents c.column data scratch
  unfold fetch
  rcases hfetch : b.fetch c.column data scratch with ⟨e' | values', scratch'⟩
  · rw [hfetch, hv] at hf
    cases hf
  · rw [hfetch, hv] at hf
    obtain rfl : values' = values := Except.ok.inj hf
    simp only [h, hfetch, and_self]

theorem seek_of_hit {row : UInt64} (h : c.hits row = true) (data : Array UInt8) (scratch : Scratch) :
    (c.seek data row scratch).load = none ∧ (c.seek data row scratch).handle = c := by
  simp only [seek, Access.andThen, if_pos h, and_self]

theorem seek_of_miss {row : UInt64} (h : c.hits row = false) (data : Array UInt8)
    (scratch : Scratch) :
    (c.seek data row scratch).load = (c.fetch data row scratch).load ∧
      (c.seek data row scratch).handle = (c.fetch data row scratch).handle := by
  simp only [seek, Access.andThen, h, Bool.false_eq_true, if_false, and_self]

section Next

variable (h : Past data column row c) (hr : column.Readable data rows)
  (hb : b ∈ column.blocks.toList) (hcov : b.Covers row) (hrow : row < UInt64.size)
  (scratch : Scratch)

include h hr hb hcov hrow

/-- A block is loaded in the row where it starts, and is at hand in all of its rows. -/
theorem Past.seek_of_ok {values : Values} (hv : b.contents column data = .ok values) :
    (c.seek data (.ofNat row) scratch).load =
        (if b.startRow.toNat = row then some (b.load column) else none) ∧
      (c.seek data (.ofNat row) scratch).handle.current = some ⟨b.startRow, values⟩ := by
  obtain ⟨hfirst, hlater⟩ := h.current_of_covers hr hb hcov hrow
  by_cases hstart : b.startRow.toNat = row
  · obtain rfl : c.column = column := h.after.sound.2
    have hrecord : c.record? (.ofNat row) = some b :=
      record?_of_covers hr hb (by rwa [UInt64.toNat_ofNat_of_lt' hrow])
    obtain ⟨hload, hhandle⟩ := seek_of_miss (hfirst hstart) data scratch
    obtain ⟨hfetched, hheld⟩ := fetch_of_ok hrecord hv scratch
    rw [if_pos hstart, hload, hhandle, hfetched, hheld]
    exact ⟨rfl, rfl⟩
  · obtain ⟨hhit, found, hfound, hcur⟩ := hlater hstart
    obtain rfl : found = values := Except.ok.inj (hfound.symm.trans hv)
    obtain ⟨hload, hhandle⟩ := seek_of_hit hhit data scratch
    rw [if_neg hstart, hload, hhandle, hcur]
    exact ⟨rfl, rfl⟩

theorem Past.seek_of_error {e : ScanError} (he : b.contents column data = .error e) :
    b.startRow.toNat = row ∧ (c.seek data (.ofNat row) scratch).load = none := by
  obtain ⟨hfirst, hlater⟩ := h.current_of_covers hr hb hcov hrow
  by_cases hstart : b.startRow.toNat = row
  · obtain rfl : c.column = column := h.after.sound.2
    have hrecord : c.record? (.ofNat row) = some b :=
      record?_of_covers hr hb (by rwa [UInt64.toNat_ofNat_of_lt' hrow])
    rw [(seek_of_miss (hfirst hstart) data scratch).1]
    exact ⟨hstart, fetch_of_error hrecord he scratch⟩
  · obtain ⟨-, values, hv, -⟩ := hlater hstart
    rw [he] at hv
    cases hv

end Next

theorem Past.next (hafter : After data (.new column) c) (hb : b ∈ column.blocks.toList)
    (hcov : b.Covers row) {values : Values} (hv : b.contents column data = .ok values)
    (hcur : c.current = some ⟨b.startRow, values⟩) : Past data column (row + 1) c where
  after := hafter
  first hzero := absurd hzero (Nat.succ_ne_zero row)
  keeps last hlast := by
    obtain rfl := Nat.succ.inj hlast
    exact ⟨b, hb, hcov, values, hv, hcur⟩

end Cursor

namespace Pass

/-- A part of a pass in which the blocks `vs` are due: it tells of those before the first that
cannot be loaded, and ends with the error of that one. -/
structure Loads (data : Array UInt8) (vs : List Visit) (steps : List Step)
    (error : Option ScanError) (steps' : List Step) : Prop where
  error : error = vs.findSome? (·.failure? data)
  steps : steps' = steps ++ (Visit.loadable data vs).map fun v => .loaded v.load

namespace Loads

variable {data : Array UInt8} {vs ws : List Visit} {steps steps' steps'' : List Step}

theorem nil : Loads data [] steps none steps := ⟨rfl, (List.append_nil steps).symm⟩

theorem one {v : Visit} {load : Option BlockLoad}
    (hload : load = if (v.failure? data).isNone then some v.load else none)
    (steps : Array Step) :
    Loads data [v] steps.toList (v.failure? data) (noteLoad steps load).toList := by
  subst hload
  cases hv : v.failure? data with
  | none => exact ⟨by simp [hv], by simp [Visit.loadable, noteLoad, hv]⟩
  | some e => exact ⟨by simp [hv], by simp [Visit.loadable, noteLoad, hv]⟩

theorem append_of_some {e : ScanError} (h : Loads data vs steps (some e) steps') :
    Loads data (vs ++ ws) steps (some e) steps' := by
  have hfirst : vs.findSome? (·.failure? data) = some e := h.error.symm
  constructor
  · rw [List.findSome?_append, hfirst, Option.some_or]
  · rw [h.steps, Visit.loadable_append_of_some hfirst]

theorem append {error : Option ScanError} (h : Loads data vs steps none steps')
    (h' : Loads data ws steps' error steps'') : Loads data (vs ++ ws) steps error steps'' := by
  have hsound : vs.findSome? (·.failure? data) = none := h.error.symm
  constructor
  · rw [List.findSome?_append, hsound, Option.none_or, h'.error]
  · rw [h'.steps, h.steps, Visit.loadable_append hsound, Visit.loadable_of_none hsound,
      List.map_append, List.append_assoc]

end Loads
end Pass

namespace Table

variable {t : Table} {column : ColumnRecord} {c : Cursor} {row : Nat}

theorem read_of_lt (hrow : row < t.rowCount) (scratch : Scratch) :
    (t.read c row scratch).load = (c.seek t.data (.ofNat row) scratch).load ∧
      (t.read c row scratch).handle = (c.seek t.data (.ofNat row) scratch).handle := by
  rw [read, if_neg (Nat.not_le.2 hrow)]
  exact ⟨rfl, rfl⟩

theorem format_of_lt (hrow : row < t.rowCount) (scratch : Scratch) :
    (t.format c row scratch).load = (c.seek t.data (.ofNat row) scratch).load ∧
      (t.format c row scratch).handle = (c.seek t.data (.ofNat row) scratch).handle := by
  rw [format, if_neg (Nat.not_le.2 hrow)]
  exact ⟨rfl, rfl⟩

theorem read_loads (h : c.Past t.data column row) (hr : column.Readable t.data t.rowCount)
    (hf : column.type = .float64) (hrow : row < t.rowCount) (place : Fin 3)
    (steps : Array Pass.Step) (scratch : Scratch) :
    Pass.Loads t.data (column.visitsIn place row) steps.toList
        (errorOf (t.read c row scratch).result)
        (Pass.noteLoad steps (t.read c row scratch).load).toList ∧
      ∀ x, (t.read c row scratch).result = .ok x →
        (t.read c row scratch).handle.Past t.data column (row + 1) := by
  obtain ⟨b, hb, hcov⟩ := hr.tiles.exists_covers (Nat.zero_le row) hrow
  have hsize := hrow.trans hr.rows_lt
  have herror : errorOf (t.read c row scratch).result = errorOf (b.contents column t.data) :=
    (read_gives hr hf h.after hb hcov hrow scratch).errorOf_eq (hr.within b hb)
  obtain ⟨hload, hhandle⟩ := read_of_lt (c := c) hrow scratch
  rw [ColumnRecord.visitsIn_eq hr.tiles hb hcov, herror, hload]
  cases hv : b.contents column t.data with
  | error e =>
    obtain ⟨hstart, hnone⟩ := h.seek_of_error hr hb hcov hsize scratch hv
    rw [if_pos hstart, hnone, ← hv]
    refine ⟨.one (by rw [Visit.failure?, hv]; rfl) steps, ?_⟩
    intro x hx
    rw [hv, hx] at herror
    cases herror
  | ok values =>
    obtain ⟨htold, hcur⟩ := h.seek_of_ok hr hb hcov hsize scratch hv
    refine ⟨?_, ?_⟩
    · rw [htold, ← hv]
      split
      · exact .one (by rw [Visit.failure?, hv]; rfl) steps
      · rw [hv]
        exact .nil
    · intro _ _
      exact .next (h.after.read t.record row scratch) hb hcov hv (by rw [hhandle, hcur])

end Table

namespace Pass

structure State.Past (data : Array UInt8) (x y z : ColumnRecord) (row : Nat) (s : State Cursor) :
    Prop where
  x : s.x.Past data x row
  y : s.y.Past data y row
  z : s.z.Past data z row

section Rows

variable {t : Table} {x y z : ColumnRecord} (hx : x.Readable t.data t.rowCount)
  (hy : y.Readable t.data t.rowCount) (hz : z.Readable t.data t.rowCount)
  (fx : x.type = .float64) (fy : y.type = .float64) (fz : z.type = .float64)

include hx hy hz fx fy fz

theorem row_loads {s : State Cursor} {i : Nat} (hs : s.Past t.data x y z i) (hi : i < t.rowCount)
    (width : BucketWidth) :
    Loads t.data (startingIn x y z i) s.steps.toList (errorOf (row t width i s).1)
        (row t width i s).2.steps.toList ∧
      ((row t width i s).1 = .ok () → (row t width i s).2.Past t.data x y z (i + 1)) := by
  -- Each read takes over the steps and the scratch slot of the one before.
  obtain ⟨lx, px⟩ := Table.read_loads hs.x hx fx hi 0 s.steps s.scratch
  simp only [row, startingIn, ColumnSource.read]
  generalize t.read s.x i s.scratch = ax at lx px
  obtain ⟨ly, py⟩ := Table.read_loads hs.y hy fy hi 1 (noteLoad s.steps ax.load) ax.scratch
  generalize t.read s.y i ax.scratch = ay at ly py
  obtain ⟨lz, pz⟩ := Table.read_loads hs.z hz fz hi 2
    (noteLoad (noteLoad s.steps ax.load) ay.load) ay.scratch
  generalize t.read s.z i ay.scratch = az at lz pz
  cases hax : ax.result with
  | error e =>
    rw [hax] at lx
    rw [List.append_assoc]
    exact ⟨lx.append_of_some, fun h => by cases h⟩
  | ok vx =>
    rw [hax] at lx
    cases hay : ay.result with
    | error e =>
      rw [hay] at ly
      exact ⟨(lx.append ly).append_of_some, fun h => by cases h⟩
    | ok vy =>
      rw [hay] at ly
      cases haz : az.result with
      | error e =>
        rw [haz] at lz
        exact ⟨(lx.append ly).append lz, fun h => by cases h⟩
      | ok vz =>
        rw [haz] at lz
        exact ⟨(lx.append ly).append lz, fun _ => ⟨px vx hax, py vy hay, pz vz haz⟩⟩

theorem rows_load {s : State Cursor} {i count : Nat} (hs : s.Past t.data x y z i)
    (hi : i + count ≤ t.rowCount) (width : BucketWidth) :
    Loads t.data ((List.range' i count).flatMap (startingIn x y z)) s.steps.toList
      (errorOf (rows t width i count s).1) (rows t width i count s).2.steps.toList := by
  induction count generalizing i s with
  | zero => exact .nil
  | succ count ih =>
    obtain ⟨hrow, hpast⟩ := row_loads hx hy hz fx fy fz hs (by omega) width
    rw [List.range'_succ, List.flatMap_cons]
    simp only [rows]
    rcases hr : row t width i s with ⟨e | u, s'⟩
    · rw [hr] at hrow
      exact hrow.append_of_some
    · rw [hr] at hrow hpast
      exact hrow.append (ih (hpast rfl) (by omega))

end Rows

theorem errorOf_ofRows {η : Type} (count : Nat) (r : Except ScanError Unit × State η) :
    errorOf (Outcome.ofRows count r).result = errorOf r.1 := by
  rcases r with ⟨e | u, s⟩ <;> rfl

theorem steps_ofRows {η : Type} (count : Nat) (r : Except ScanError Unit × State η) :
    (Outcome.ofRows count r).steps =
      r.2.steps.toList ++ if (errorOf r.1).isNone then [.ended] else [] := by
  rcases r with ⟨e | u, s⟩
  · exact (List.append_nil s.steps.toList).symm
  · rfl

theorem run_loads {t : Table} (hr : ∀ name column, t.record.column? name = some column →
      column.Readable t.data t.rowCount)
    {options : ScanOptions} {handles : Cursor × Cursor × Cursor}
    (hb : bindAll t options = .ok handles) (scratch : Scratch) :
    errorOf (run t options scratch).result = (visits t options).findSome? (·.failure? t.data) ∧
      (run t options scratch).steps =
        .started t.rowCount ::
          (Visit.loadable t.data (visits t options)).map (fun v => .loaded v.load) ++
            if (errorOf (run t options scratch).result).isNone then [.ended] else [] := by
  obtain ⟨cx, cy, cz⟩ := handles
  obtain ⟨hbx, hby, hbz⟩ := bindAll_eq_ok.1 hb
  obtain ⟨x, hcx, fx, rfl⟩ := Table.bind_eq_ok.1 hbx
  obtain ⟨y, hcy, fy, rfl⟩ := Table.bind_eq_ok.1 hby
  obtain ⟨z, hcz, fz, rfl⟩ := Table.bind_eq_ok.1 hbz
  have hx := hr _ x hcx
  have hy := hr _ y hcy
  have hz := hr _ z hcz
  have hpast : (State.initial (.new x, .new y, .new z) t.rowCount scratch).Past t.data x y z 0 :=
    ⟨.new _ x, .new _ y, .new _ z⟩
  have hrows := rows_load hx hy hz fx fy fz hpast (Nat.le_of_eq (Nat.zero_add _)) options.width
  rw [← List.range_eq_range', ← visits_eq_flatMap hx.tiles hy.tiles hz.tiles hcx hcy hcz] at hrows
  simp only [run, hb, errorOf_ofRows, steps_ofRows]
  exact ⟨hrows.error, congrArg (· ++ _) hrows.steps⟩

theorem timed_loads (watch : Stopwatch) (loads : Nat) (vs : List Visit) :
    timed watch loads (vs.map (fun v => .loaded v.load) ++ [.ended]) =
      vs.mapIdx (fun i v => .blockRead v.load (watch.load (loads + i))) ++
        [.scanEnd watch.timing.analysis] := by
  induction vs generalizing loads with
  | nil => rfl
  | cons v vs ih =>
    simp only [List.map_cons, List.cons_append, timed, ih, List.mapIdx_cons, Nat.add_zero,
      Nat.add_right_comm, Nat.add_assoc]

theorem row_steps_of_memory (m : MemoryTable) (width : BucketWidth) (i : Nat) (s : State Nat) :
    (row m width i s).2.steps = s.steps := by
  simp only [row, ColumnSource.read, noteLoad]
  cases m.value s.x i with
  | error e => rfl
  | ok px =>
    cases m.value s.y i with
    | error e => rfl
    | ok py => cases m.value s.z i <;> rfl

theorem rows_steps_of_memory (m : MemoryTable) (width : BucketWidth) (i count : Nat)
    (s : State Nat) : (rows m width i count s).2.steps = s.steps := by
  induction count generalizing i s with
  | zero => rfl
  | succ count ih =>
    have hrow := row_steps_of_memory m width i s
    simp only [rows]
    rcases hr : row m width i s with ⟨e | u, s'⟩
    · rwa [hr] at hrow
    · rw [hr] at hrow
      exact (ih (i + 1) s').trans hrow

theorem run_steps_of_memory (m : MemoryTable) (options : ScanOptions) (scratch : Scratch) :
    (run m options scratch).steps = [] ∨ (run m options scratch).steps = [.started m.rowCount] ∨
      (run m options scratch).steps = [.started m.rowCount, .ended] := by
  simp only [run]
  rcases hb : bindAll m options with e | handles
  · exact Or.inl rfl
  · right
    simp only [steps_ofRows, rows_steps_of_memory]
    split
    · exact Or.inr rfl
    · exact Or.inl rfl

/-- A pass that counted every row of a table in a file has loaded every block once for each handle
on its column, in the order of the blocks; a pass over a table in memory loads none. -/
theorem run_tells_every_block :
    (∀ (path : String) (contents : Except String (Array UInt8)) (f : TableFile),
      TableFile.ofContents path contents = .ok f → ∀ (name : String) (t : Table),
        f.table name = .ok t → ∀ (options : ScanOptions) (scratch : Scratch) (tally : Tally),
          (run t options scratch).result = .ok tally →
            (run t options scratch).steps =
              .started t.rowCount :: (visits t options).map (fun v => .loaded v.load) ++ [.ended] ∧
            ∀ watch, timed watch 0 (run t options scratch).steps =
              .scanStart t.rowCount ::
                (visits t options).mapIdx (fun i v => .blockRead v.load (watch.load i)) ++
                  [.scanEnd watch.timing.analysis]) ∧
    ∀ (m : MemoryTable) (options : ScanOptions) (scratch : Scratch),
      (∀ load, .loaded load ∉ (run m options scratch).steps) ∧
        ∀ watch load elapsed,
          .blockRead load elapsed ∉ timed watch 0 (run m options scratch).steps := by
  refine ⟨?_, ?_⟩
  · intro path contents f ho name t ht options scratch tally hrun
    have hbound : ∃ handles, bindAll t options = .ok handles := by
      cases hb : bindAll t options with
      | error e =>
        rw [run, hb] at hrun
        cases hrun
      | ok handles => exact ⟨handles, rfl⟩
    obtain ⟨handles, hb⟩ := hbound
    obtain ⟨herror, hsteps⟩ := run_loads (fun _ _ => TableFile.readable ho ht) hb scratch
    rw [hrun] at herror hsteps
    rw [Visit.loadable_of_none herror.symm] at hsteps
    refine ⟨hsteps, ?_⟩
    intro watch
    rw [hsteps]
    have htimed := timed_loads watch 0 (visits t options)
    simp only [Nat.zero_add] at htimed
    exact congrArg (Event.scanStart t.rowCount :: ·) htimed
  · intro m options scratch
    rcases run_steps_of_memory m options scratch with h | h | h <;> rw [h] <;> simp [timed]

theorem failure?_finish {w : TableWriter} {v : Visit} (h : v.block.Within w.written) :
    v.failure? w.finish.2 = v.failure? w.written := by
  rw [Visit.failure?, TableWriter.finish_bytes, Array.append_assoc, h.contents_append]
  rfl

theorem uneven_visits (data : Array UInt8) :
    visits ⟨data, unevenHits⟩ ⟨"x", "y", "x", .standard⟩ =
      (List.range 5).flatMap (startingIn unevenX unevenY unevenX) := by
  have hx : Tiles 0 unevenX.blocks.toList 5 := by simp [Tiles, unevenX]
  have hy : Tiles 0 unevenY.blocks.toList 5 := by simp [Tiles, unevenY]
  exact visits_eq_flatMap hx hy hx rfl rfl rfl

theorem uneven_sound :
    (visits ⟨uneven.finish.2, unevenHits⟩ ⟨"x", "y", "x", .standard⟩).findSome?
      (·.failure? uneven.finish.2) = none := by
  have hall : ∀ v ∈ (List.range 5).flatMap (startingIn unevenX unevenY unevenX),
      v.block.Within uneven.written ∧ v.failure? uneven.written = none := by decide +kernel
  rw [uneven_visits]
  apply List.findSome?_eq_none_iff.2
  intro v hv
  exact (failure?_finish (hall v hv).1).trans (hall v hv).2

theorem uneven_counted : ∃ tally,
    (run (⟨uneven.finish.2, unevenHits⟩ : Table) ⟨"x", "y", "x", .standard⟩ .empty).result =
      .ok tally := by
  have hr : ∀ name column, unevenHits.column? name = some column →
      column.Readable uneven.finish.2 (Table.rowCount ⟨uneven.finish.2, unevenHits⟩) := by
    intro name column hcol
    exact TableFile.readable uneven_opens
      (show TableFile.table _ "hits" = .ok ⟨uneven.finish.2, unevenHits⟩ from rfl) hcol
  exact errorOf_eq_none.1 ((run_loads hr rfl .empty).1.trans uneven_sound)

theorem uneven_tells_every_block : ∃ f t tally,
    TableFile.ofContents "uneven.tbl" (.ok uneven.finish.2) = .ok f ∧ f.table "hits" = .ok t ∧
      (run t ⟨"x", "y", "x", .standard⟩ .empty).result = .ok tally ∧
      (run t ⟨"x", "y", "x", .standard⟩ .empty).steps =
        [.started 5, .loaded ⟨"x", 2, 38, 32⟩, .loaded ⟨"y", 3, 46, 40⟩, .loaded ⟨"x", 2, 38, 32⟩,
          .loaded ⟨"x", 2, 38, 32⟩, .loaded ⟨"x", 2, 38, 32⟩, .loaded ⟨"y", 2, 38, 32⟩,
          .loaded ⟨"x", 1, 30, 24⟩, .loaded ⟨"x", 1, 30, 24⟩, .ended] := by
  obtain ⟨tally, hrun⟩ := uneven_counted
  have hsteps := (run_tells_every_block.1 _ _ _ uneven_opens "hits" ⟨uneven.finish.2, unevenHits⟩
    rfl ⟨"x", "y", "x", .standard⟩ .empty tally hrun).1
  rw [uneven_visits] at hsteps
  exact ⟨_, ⟨uneven.finish.2, unevenHits⟩, tally, uneven_opens, rfl, hrun, hsteps⟩

end Pass
end Columnar
