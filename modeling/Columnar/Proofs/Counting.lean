import Columnar.Proofs.Opening
import Columnar.Proofs.Tallying
import Columnar.Scan.MemoryTable
import Columnar.Scan.Pass

/-! What a pass counts. A source is steady if no read through a handle changes what later reads of
it give; tables in memory are, and so are the tables of an opened file, whatever their cursors keep.
Over a steady source a pass is a fold over the rows of what fresh handles read, so the histogram
counts every row once, and the order of the rows does not matter. -/

namespace Columnar

namespace ColumnSource

variable {σ η : Type} [ColumnSource σ η]

def freshValue (source : σ) (name : String) (row : Nat) : Except ScanError Binary64 :=
  (ColumnSource.bind source name).bind fun handle =>
    (ColumnSource.read source handle row .empty).result

/-- Reads through `handle`, one after the other, give what a fresh handle on `name` reads. -/
def Faithful (source : σ) (name : String) (handle : η) : Prop :=
  ∃ Keeps : η → Prop, Keeps handle ∧ ∀ h, Keeps h → ∀ row scratch,
    row < ColumnSource.rowCount source →
      (ColumnSource.read source h row scratch).result = freshValue source name row ∧
        Keeps (ColumnSource.read source h row scratch).handle

theorem Faithful.read {source : σ} {name : String} {handle : η}
    (h : Faithful source name handle) {row : Nat} (hrow : row < ColumnSource.rowCount source)
    (scratch : Scratch) :
    (ColumnSource.read source handle row scratch).result = freshValue source name row ∧
      Faithful source name (ColumnSource.read source handle row scratch).handle := by
  obtain ⟨Keeps, hk, hstep⟩ := h
  obtain ⟨hres, hnext⟩ := hstep handle hk row scratch hrow
  exact ⟨hres, Keeps, hnext, hstep⟩

/-- No read changes what later reads give. -/
def Steady (source : σ) : Prop :=
  ∀ name handle, ColumnSource.bind source name = .ok handle → Faithful source name handle

/-- What a source shows of itself: `columns` under their names, and no others. -/
structure Presents (source : σ) (columns : String → Option (Array Binary64)) : Prop where
  missing : ∀ name, columns name = none →
    ∃ fault, ColumnSource.bind source name = .error (.columnNotFound fault)
  bound : ∀ name xs, columns name = some xs → ∃ handle, ColumnSource.bind source name = .ok handle
  reads : ∀ name xs, columns name = some xs → ∀ row, row < ColumnSource.rowCount source →
    freshValue source name row = .ok (xs[row]?.getD default)

end ColumnSource

namespace MemoryTable

theorem steady (t : MemoryTable) : ColumnSource.Steady t := by
  intro name start hbind
  refine ⟨fun h => h = start, rfl, ?_⟩
  rintro h rfl row scratch -
  refine ⟨?_, rfl⟩
  rw [ColumnSource.freshValue, hbind]
  rfl

end MemoryTable

namespace Table

theorem steady_of_readable {t : Table}
    (h : ∀ name column, t.record.column? name = some column →
      column.Readable t.data t.rowCount) : ColumnSource.Steady t := by
  intro name start hbind
  obtain ⟨column, hcol, htype, rfl⟩ := bind_eq_ok.1 hbind
  have hr := h name column hcol
  refine ⟨fun c => Cursor.After t.data (.new column) c, .none, ?_⟩
  intro c hc row scratch hrow
  obtain ⟨b, hb, hcov⟩ := hr.tiles.exists_covers (Nat.zero_le row) hrow
  refine ⟨?_, hc.read t.record row scratch⟩
  rw [ColumnSource.freshValue, hbind]
  exact (read_gives hr htype hc hb hcov hrow scratch).unique
    (read_gives hr htype .none hb hcov hrow .empty)

end Table

theorem TableFile.steady {path : String} {contents : Except String (Array UInt8)} {f : TableFile}
    (ho : ofContents path contents = .ok f) {name : String} {t : Table}
    (ht : f.table name = .ok t) : ColumnSource.Steady t :=
  Table.steady_of_readable fun _ _ hcol => readable ho ht hcol

namespace Pass

variable {σ η : Type} [ColumnSource σ η]

def bucketAt (source : σ) (options : ScanOptions) (row : Nat) :
    Except ScanError (Option Int) := do
  let x ← ColumnSource.freshValue source options.x row
  let y ← ColumnSource.freshValue source options.y row
  let z ← ColumnSource.freshValue source options.z row
  pure (options.width.bucket x y z)

def countRow (source : σ) (options : ScanOptions) (h : Histogram) (row : Nat) :
    Except ScanError Histogram :=
  (bucketAt source options row).map h.record

structure Kept (source : σ) (options : ScanOptions) (s : State η) : Prop where
  x : ColumnSource.Faithful source options.x s.x
  y : ColumnSource.Faithful source options.y s.y
  z : ColumnSource.Faithful source options.z s.z

theorem row_eq {source : σ} {options : ScanOptions} {s : State η} (hs : Kept source options s)
    {i : Nat} (hi : i < ColumnSource.rowCount source) :
    ((row source options.width i s).1.map fun () => (row source options.width i s).2.histogram) =
        countRow source options s.histogram i ∧
      ((row source options.width i s).1 = .ok () →
        Kept source options (row source options.width i s).2) := by
  obtain ⟨hx, kx⟩ := hs.x.read hi s.scratch
  -- Each read hands its scratch slot to the next, so the three are taken in their order.
  simp only [row, countRow, bucketAt, ← hx]
  generalize ColumnSource.read source s.x i s.scratch = x at kx
  obtain ⟨hy, ky⟩ := hs.y.read hi x.scratch
  simp only [← hy]
  generalize ColumnSource.read source s.y i x.scratch = y at ky
  obtain ⟨hz, kz⟩ := hs.z.read hi y.scratch
  simp only [← hz]
  generalize ColumnSource.read source s.z i y.scratch = z at kz
  cases x.result with
  | error e => exact ⟨rfl, fun h => by cases h⟩
  | ok px =>
    cases y.result with
    | error e => exact ⟨rfl, fun h => by cases h⟩
    | ok py =>
      cases z.result with
      | error e => exact ⟨rfl, fun h => by cases h⟩
      | ok pz => exact ⟨rfl, fun _ => ⟨kx, ky, kz⟩⟩

theorem rows_eq {source : σ} {options : ScanOptions} {s : State η} (hs : Kept source options s)
    {i count : Nat} (hi : i + count ≤ ColumnSource.rowCount source) :
    ((rows source options.width i count s).1.map fun () =>
        (rows source options.width i count s).2.histogram) =
      (List.range' i count).foldlM (countRow source options) s.histogram := by
  induction count generalizing i s with
  | zero => rfl
  | succ count ih =>
    obtain ⟨hrow, hkept⟩ := row_eq hs (show i < ColumnSource.rowCount source by omega)
    rw [List.range'_succ, List.foldlM_cons, ← hrow]
    simp only [rows]
    rcases hr : row source options.width i s with ⟨e | u, s'⟩
    · rfl
    · have hk : Kept source options s' := by
        simpa [hr] using hkept
      exact ih hk (by omega)

theorem bindAll_eq_ok {source : σ} {options : ScanOptions} {x y z : η} :
    bindAll source options = .ok (x, y, z) ↔ ColumnSource.bind source options.x = .ok x ∧
      ColumnSource.bind source options.y = .ok y ∧
        ColumnSource.bind source options.z = .ok z := by
  unfold bindAll
  cases ColumnSource.bind source options.x with
  | error e => simp [bind, Except.bind]
  | ok a =>
    cases ColumnSource.bind source options.y with
    | error e => simp [bind, Except.bind]
    | ok b =>
      cases ColumnSource.bind source options.z with
      | error e => simp [bind, Except.bind]
      | ok c => simp [bind, Except.bind, pure, Except.pure]

theorem ofRows_result (count : Nat) (r : Except ScanError Unit × State η) :
    (Outcome.ofRows count r).result =
      (r.1.map fun () => r.2.histogram).map fun h => ⟨h, count⟩ := by
  rcases r with ⟨e | u, s⟩ <;> rfl

theorem run_result {source : σ} (hs : ColumnSource.Steady source) (options : ScanOptions)
    (scratch : Scratch) :
    (run source options scratch).result = (bindAll source options).bind fun _ =>
      ((List.range (ColumnSource.rowCount source)).foldlM (countRow source options) .empty).map
        fun h => ⟨h, ColumnSource.rowCount source⟩ := by
  simp only [run]
  rcases hb : bindAll source options with e | ⟨x, y, z⟩
  · rfl
  · obtain ⟨hx, hy, hz⟩ := bindAll_eq_ok.1 hb
    generalize hc : ColumnSource.rowCount source = count
    have hkept : Kept source options (State.initial (x, y, z) count scratch) :=
      ⟨hs _ _ hx, hs _ _ hy, hs _ _ hz⟩
    have hrows := @rows_eq _ _ _ source options _ hkept 0 count (by omega)
    rw [← List.range_eq_range'] at hrows
    have hfold : (Outcome.ofRows count (rows source options.width 0 count
        (State.initial (x, y, z) count scratch))).result =
          ((List.range count).foldlM (countRow source options) .empty).map (⟨·, count⟩) := by
      rw [ofRows_result, hrows]
      rfl
    exact hfold

theorem foldlM_countRow {source : σ} {options : ScanOptions} {bucket : Nat → Option Int}
    {indices : List Nat} (hb : ∀ i ∈ indices, bucketAt source options i = .ok (bucket i))
    (h : Histogram) :
    indices.foldlM (countRow source options) h =
      .ok ((indices.map bucket).foldl Histogram.record h) := by
  induction indices generalizing h with
  | nil => rfl
  | cons i indices ih =>
    obtain ⟨hi, hrest⟩ := List.forall_mem_cons.1 hb
    rw [List.foldlM_cons, countRow, hi]
    exact ih hrest (h.record (bucket i))

theorem bucketAt_of_foldlM {source : σ} {options : ScanOptions} {indices : List Nat}
    {h h' : Histogram} (hf : indices.foldlM (countRow source options) h = .ok h') :
    ∀ i ∈ indices, ∃ bucket, bucketAt source options i = .ok bucket := by
  induction indices generalizing h with
  | nil =>
    intro i hi
    cases hi
  | cons i indices ih =>
    rw [List.foldlM_cons] at hf
    obtain ⟨h₁, hcount, hrest⟩ := except_bind_eq_ok.1 hf
    intro j hj
    rcases List.mem_cons.1 hj with rfl | hj
    · rw [countRow] at hcount
      cases hb : bucketAt source options j with
      | error e =>
        rw [hb] at hcount
        cases hcount
      | ok bucket => exact ⟨bucket, rfl⟩
    · exact ih hrest j hj

theorem run_eq_ok {source : σ} (hs : ColumnSource.Steady source) {options : ScanOptions}
    {scratch : Scratch} {tally : Tally} (h : (run source options scratch).result = .ok tally) :
    ∃ bucket : Nat → Option Int,
      (∀ i < ColumnSource.rowCount source, bucketAt source options i = .ok (bucket i)) ∧
        tally = ⟨.ofBuckets ((List.range (ColumnSource.rowCount source)).map bucket),
          ColumnSource.rowCount source⟩ := by
  rw [run_result hs] at h
  obtain ⟨handles, -, h⟩ := except_bind_eq_ok.1 h
  cases hf : (List.range (ColumnSource.rowCount source)).foldlM (countRow source options)
      Histogram.empty with
  | error e =>
    rw [hf] at h
    cases h
  | ok histogram =>
    rw [hf] at h
    obtain rfl := Except.ok.inj h
    have hall := bucketAt_of_foldlM hf
    have hb : ∀ i ∈ List.range (ColumnSource.rowCount source),
        bucketAt source options i = .ok ((bucketAt source options i).toOption.getD none) := by
      intro i hi
      obtain ⟨bucket, hb⟩ := hall i hi
      rw [hb]
      rfl
    refine ⟨_, fun i hi => hb i (List.mem_range.2 hi), ?_⟩
    rw [foldlM_countRow hb] at hf
    rw [← Except.ok.inj hf]
    rfl

/-- The tally of a pass against the values that fresh handles read in every row. -/
structure CountsRows (source : σ) (options : ScanOptions) (tally : Tally)
    (x y z : Nat → Binary64) : Prop where
  rows : tally.rows = ColumnSource.rowCount source
  reads : ∀ i < tally.rows, ColumnSource.freshValue source options.x i = .ok (x i) ∧
    ColumnSource.freshValue source options.y i = .ok (y i) ∧
      ColumnSource.freshValue source options.z i = .ok (z i)
  count : ∀ key, tally.histogram.count key =
    (List.range tally.rows).countP fun i => options.width.bucket (x i) (y i) (z i) = some key
  invalid : tally.histogram.invalid =
    (List.range tally.rows).countP fun i => options.width.bucket (x i) (y i) (z i) = none
  total : tally.histogram.total = tally.rows
  size : tally.histogram.size = ((List.range tally.rows).filterMap fun i =>
    options.width.bucket (x i) (y i) (z i)).dedup.length
  positive : ∀ e ∈ tally.histogram.counts, 0 < e.2
  ascending : tally.histogram.counts.Pairwise fun a b => a.1 < b.1

theorem bucketAt_eq_ok {source : σ} {options : ScanOptions} {i : Nat} {bucket : Option Int} :
    bucketAt source options i = .ok bucket ↔
      ∃ x y z, ColumnSource.freshValue source options.x i = .ok x ∧
        ColumnSource.freshValue source options.y i = .ok y ∧
          ColumnSource.freshValue source options.z i = .ok z ∧
            options.width.bucket x y z = bucket := by
  simp only [bucketAt, except_bind_eq_ok, pure, Except.pure, Except.ok.injEq]
  constructor
  · rintro ⟨x, hx, y, hy, z, hz, hb⟩
    exact ⟨x, y, z, hx, hy, hz, hb⟩
  · rintro ⟨x, y, z, hx, hy, hz, hb⟩
    exact ⟨x, hx, y, hy, z, hz, hb⟩

theorem run_counts_rows {source : σ} (hs : ColumnSource.Steady source) {options : ScanOptions}
    {scratch : Scratch} {tally : Tally} (h : (run source options scratch).result = .ok tally) :
    ∃ x y z, CountsRows source options tally x y z := by
  obtain ⟨bucket, hbucket, rfl⟩ := run_eq_ok hs h
  have hex : ∀ i, ∃ p : Binary64 × Binary64 × Binary64, i < ColumnSource.rowCount source →
      ColumnSource.freshValue source options.x i = .ok p.1 ∧
        ColumnSource.freshValue source options.y i = .ok p.2.1 ∧
          ColumnSource.freshValue source options.z i = .ok p.2.2 ∧
            options.width.bucket p.1 p.2.1 p.2.2 = bucket i := by
    intro i
    by_cases hi : i < ColumnSource.rowCount source
    · obtain ⟨x, y, z, hx, hy, hz, hb⟩ := bucketAt_eq_ok.1 (hbucket i hi)
      exact ⟨(x, y, z), fun _ => ⟨hx, hy, hz, hb⟩⟩
    · exact ⟨default, fun h => absurd h hi⟩
  choose p hp using hex
  have hmap : (List.range (ColumnSource.rowCount source)).map bucket =
      (List.range (ColumnSource.rowCount source)).map fun i =>
        options.width.bucket (p i).1 (p i).2.1 (p i).2.2 :=
    List.map_congr_left fun i hi => (hp i (List.mem_range.1 hi)).2.2.2.symm
  rw [hmap]
  refine ⟨fun i => (p i).1, fun i => (p i).2.1, fun i => (p i).2.2, rfl, ?_, ?_, ?_, ?_, ?_,
    Histogram.positive _, Histogram.ascending _⟩
  · intro i hi
    obtain ⟨hx, hy, hz, -⟩ := hp i hi
    exact ⟨hx, hy, hz⟩
  · intro key
    rw [Histogram.count_ofBuckets, List.count_eq_countP, List.countP_map]
    exact List.countP_congr fun i _ => by simp
  · rw [Histogram.invalid_ofBuckets, List.count_eq_countP, List.countP_map]
    exact List.countP_congr fun i _ => by simp
  · rw [Histogram.total_ofBuckets, List.length_map, List.length_range]
  · rw [Histogram.size_ofBuckets, List.filterMap_map]
    rfl

def bucketsOf (width : BucketWidth) (xs ys zs : Array Binary64) (count : Nat) :
    List (Option Int) :=
  (List.range count).map fun i =>
    width.bucket (xs[i]?.getD default) (ys[i]?.getD default) (zs[i]?.getD default)

section Presents

variable {source : σ} {columns : String → Option (Array Binary64)}
  (hs : ColumnSource.Steady source) (hp : ColumnSource.Presents source columns)

include hs hp

theorem run_presents {options : ScanOptions} {xs ys zs : Array Binary64}
    (hx : columns options.x = some xs) (hy : columns options.y = some ys)
    (hz : columns options.z = some zs) (scratch : Scratch) :
    (run source options scratch).result =
      .ok ⟨.ofBuckets (bucketsOf options.width xs ys zs (ColumnSource.rowCount source)),
        ColumnSource.rowCount source⟩ := by
  obtain ⟨a, ha⟩ := hp.bound _ _ hx
  obtain ⟨b, hb⟩ := hp.bound _ _ hy
  obtain ⟨c, hc⟩ := hp.bound _ _ hz
  have hbucket : ∀ i ∈ List.range (ColumnSource.rowCount source),
      bucketAt source options i = .ok (options.width.bucket (xs[i]?.getD default)
        (ys[i]?.getD default) (zs[i]?.getD default)) := by
    intro i hi
    have hlt := List.mem_range.1 hi
    exact bucketAt_eq_ok.2 ⟨_, _, _, hp.reads _ _ hx i hlt, hp.reads _ _ hy i hlt,
      hp.reads _ _ hz i hlt, rfl⟩
  rw [run_result hs, bindAll_eq_ok.2 ⟨ha, hb, hc⟩, foldlM_countRow hbucket]
  rfl

theorem run_missing {options : ScanOptions}
    (h : columns options.x = none ∨ columns options.y = none ∨ columns options.z = none)
    (scratch : Scratch) :
    ∃ fault, (run source options scratch).result = .error (.columnNotFound fault) := by
  have hone : ∀ name, (∃ fault, ColumnSource.bind source name = .error (.columnNotFound fault)) ∨
      columns name ≠ none ∧ ∃ handle, ColumnSource.bind source name = .ok handle := by
    intro name
    cases hc : columns name with
    | none => exact Or.inl (hp.missing name hc)
    | some xs => exact Or.inr ⟨by simp, hp.bound name xs hc⟩
  have hbind : ∃ fault, bindAll source options = .error (.columnNotFound fault) := by
    unfold bindAll
    rcases hone options.x with ⟨fault, hx⟩ | ⟨hnx, a, hx⟩
    · exact ⟨fault, by rw [hx]; rfl⟩
    · rcases hone options.y with ⟨fault, hy⟩ | ⟨hny, b, hy⟩
      · exact ⟨fault, by rw [hx, hy]; rfl⟩
      · rcases hone options.z with ⟨fault, hz⟩ | ⟨hnz, c, hz⟩
        · exact ⟨fault, by rw [hx, hy, hz]; rfl⟩
        · rcases h with h | h | h
          · exact absurd h hnx
          · exact absurd h hny
          · exact absurd h hnz
  obtain ⟨fault, hb⟩ := hbind
  exact ⟨fault, by rw [run_result hs, hb]; rfl⟩

end Presents

end Pass
end Columnar
