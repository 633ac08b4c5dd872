import Columnar.Proofs.Guarded
import Columnar.Proofs.Profiling

/-! Sums over what a file says. The words of a catalog are anything, but its own length is a word
of four bytes and a block takes 28 bytes, so a file that opens has few blocks, and each adds less
than `2 ^ 32` to a sum. The guarded forms here have no value where a sum is no word; for a file that
opens they have the value of the plain ones, in whatever state a handle or a pass is. -/

namespace Columnar

inductive Counter
  | blocks
  | rows
  | compressed
  | uncompressed

namespace Counter

def value : Counter → ReadCounts → UInt64
  | .blocks => ReadCounts.blocks
  | .rows => ReadCounts.rows
  | .compressed => ReadCounts.compressed
  | .uncompressed => ReadCounts.uncompressed

def amount : Counter → BlockLoad → UInt64
  | .blocks => fun _ => 1
  | .rows => fun load => load.rows.toUInt64
  | .compressed => BlockLoad.compressed
  | .uncompressed => BlockLoad.uncompressed

theorem counts (k : Counter) : Profile.Counts k.value k.amount := by
  cases k <;> exact ⟨rfl, fun _ _ => rfl, fun _ _ => rfl⟩

def sumOver (k : Counter) (columns : List (String × ReadCounts)) : Nat :=
  (columns.map fun e => (k.value e.2).toNat).sum

theorem toNat_add_le (k : Counter) (a b : ReadCounts) :
    (k.value (a + b)).toNat ≤ (k.value a).toNat + (k.value b).toNat := by
  -- A sum that wrapped is smaller still, so bounds need no guard.
  rw [k.counts.add, UInt64.toNat_add]
  exact Nat.mod_le _ _

theorem sumOver_addTo_le (k : Counter) (name : String) (counts : ReadCounts)
    (columns : List (String × ReadCounts)) :
    k.sumOver (Profile.addTo name counts columns) ≤ k.sumOver columns + (k.value counts).toNat := by
  induction columns with
  | nil =>
    have h := k.toNat_add_le .zero counts
    rw [k.counts.zero, UInt64.toNat_zero] at h
    simpa [Profile.addTo, sumOver] using h
  | cons e rest ih =>
    obtain ⟨n, c⟩ := e
    simp only [sumOver, List.map_cons, List.sum_cons] at ih ⊢
    rw [Profile.addTo]
    split
    · have h := k.toNat_add_le c counts
      simp only [List.map_cons, List.sum_cons]
      omega
    · simp only [List.map_cons, List.sum_cons]
      omega

theorem amount_load_lt (k : Counter) (b : BlockRecord) (column : ColumnRecord) :
    (k.amount (b.load column)).toNat < UInt32.size := by
  cases k with
  | blocks => exact (by decide : (1 : UInt64).toNat < UInt32.size)
  | rows => exact b.rows.toNat_toUInt64.trans_lt b.rows.toNat_lt
  | compressed => exact b.compressed.toNat_toUInt64.trans_lt b.compressed.toNat_lt
  | uncompressed => exact b.uncompressed.toNat_toUInt64.trans_lt b.uncompressed.toNat_lt

end Counter

namespace Guarded

theorem foldlM_add? {start : UInt64} {ns : List UInt64}
    (h : start.toNat + (ns.map UInt64.toNat).sum < UInt64.size) :
    ns.foldlM add? start = some (start + ns.sum) := by
  induction ns generalizing start with
  | nil => simp
  | cons n ns ih =>
    rw [List.map_cons, List.sum_cons] at h
    have hfirst : start.toNat + n.toNat < UInt64.size := by omega
    have hsum : (start + n).toNat = start.toNat + n.toNat := by
      rw [UInt64.toNat_add]
      exact Nat.mod_eq_of_lt hfirst
    rw [List.foldlM_cons, add?_of_lt hfirst, Option.bind_eq_bind, Option.bind_some,
      ih (by omega), List.sum_cons, add_assoc]

def total (word : BlockRecord → UInt32) (c : ColumnRecord) : Option UInt64 :=
  ((c.blocks.toList.map word).map UInt32.toUInt64).foldlM add? 0

theorem total_eq (word : BlockRecord → UInt32) {c : ColumnRecord}
    (h : 28 * c.blocks.size < UInt32.size) : total word c = some (c.total word) := by
  have h32 : UInt32.size = 4294967296 := rfl
  have h64 : UInt64.size = 18446744073709551616 := rfl
  have hsum := sum_toNat_le (c.blocks.toList.map word)
  rw [List.length_map, Array.length_toList, h32] at hsum
  rw [total, foldlM_add?, zero_add, ColumnRecord.total]
  rw [UInt64.toNat_zero]
  omega

def plus (a b : ReadCounts) : Option ReadCounts := do
  let blocks ← add? a.blocks b.blocks
  let rows ← add? a.rows b.rows
  let compressed ← add? a.compressed b.compressed
  let uncompressed ← add? a.uncompressed b.uncompressed
  some ⟨blocks, rows, compressed, uncompressed, a.time + b.time⟩

theorem plus_eq {a b : ReadCounts}
    (h : ∀ k : Counter, (k.value a).toNat + (k.value b).toNat < UInt64.size) :
    plus a b = some (a + b) := by
  have hblocks : add? a.blocks b.blocks = some _ := add?_of_lt (h .blocks)
  have hrows : add? a.rows b.rows = some _ := add?_of_lt (h .rows)
  have hcompressed : add? a.compressed b.compressed = some _ := add?_of_lt (h .compressed)
  have huncompressed : add? a.uncompressed b.uncompressed = some _ :=
    add?_of_lt (h .uncompressed)
  rw [plus, hblocks, hrows, hcompressed, huncompressed]
  rfl

def addTo (name : String) (counts : ReadCounts) :
    List (String × ReadCounts) → Option (List (String × ReadCounts))
  | [] => (plus .zero counts).map fun c => [(name, c)]
  | (n, c) :: rest =>
    if n = name then (plus c counts).map fun c => (n, c) :: rest
    else (addTo name counts rest).map fun rest => (n, c) :: rest

theorem addTo_eq {name : String} {counts : ReadCounts} {columns : List (String × ReadCounts)}
    (h : ∀ k : Counter, k.sumOver columns + (k.value counts).toNat < UInt64.size) :
    addTo name counts columns = some (Profile.addTo name counts columns) := by
  induction columns with
  | nil =>
    rw [addTo, plus_eq, Profile.addTo]
    · rfl
    · intro k
      have hk := h k
      rw [k.counts.zero, UInt64.toNat_zero]
      omega
  | cons e rest ih =>
    obtain ⟨n, c⟩ := e
    simp only [Counter.sumOver, List.map_cons, List.sum_cons] at h ih
    rw [addTo, Profile.addTo]
    split
    · rw [plus_eq]
      · rfl
      · intro k
        have hk := h k
        omega
    · rw [ih]
      · rfl
      · intro k
        have hk := h k
        omega

def observe (p : Profile) : Event → Option Profile
  | .blockRead load elapsed =>
    (addTo load.column (.ofLoad load elapsed) p.columns).map fun columns =>
      { p with columns := columns }
  | .scanStart rows => some { p with rowCount := rows }
  | .scanEnd elapsed => some { p with scanTime := elapsed }

def profile (events : List Event) : Option Profile := events.foldlM observe .empty

def totals (p : Profile) : Option ReadCounts := (p.columns.map Prod.snd).foldlM plus .zero

end Guarded

def Event.Small : Event → Prop
  | .blockRead load _ => ∀ k : Counter, (k.amount load).toNat < UInt32.size
  | _ => True

def Profile.Few (p : Profile) (loads : Nat) : Prop :=
  ∀ k : Counter, k.sumOver p.columns ≤ UInt32.size * loads

namespace Guarded

theorem observe_eq {p : Profile} {loads : Nat} {event : Event} (hp : p.Few loads)
    (hloads : loads < UInt32.size) (hsmall : event.Small) :
    observe p event = some (p.observe event) ∧ (p.observe event).Few (loads + 1) := by
  have h64 : UInt64.size = UInt32.size * UInt32.size := rfl
  -- Up to `2 ^ 32` loads of less than `2 ^ 32` each: no sum reaches `2 ^ 64`.
  have hmul : UInt32.size * (loads + 1) ≤ UInt64.size := by
    rw [h64]
    exact Nat.mul_le_mul_left _ hloads
  cases event with
  | blockRead load elapsed =>
    have hadd : ∀ k : Counter, k.sumOver p.columns + (k.value (.ofLoad load elapsed)).toNat <
        UInt32.size * (loads + 1) := by
      intro k
      have hsums := hp k
      have hamount := hsmall k
      rw [k.counts.ofLoad, Nat.mul_succ]
      omega
    refine ⟨?_, ?_⟩
    · rw [observe, addTo_eq fun k => (hadd k).trans_le hmul]
      rfl
    · intro k
      exact (k.sumOver_addTo_le _ _ _).trans (hadd k).le
  | scanStart rows => exact ⟨rfl, fun k => (hp k).trans (Nat.mul_le_mul_left _ (Nat.le_succ _))⟩
  | scanEnd elapsed => exact ⟨rfl, fun k => (hp k).trans (Nat.mul_le_mul_left _ (Nat.le_succ _))⟩

theorem profile_eq {events : List Event} (hfew : events.length ≤ UInt32.size)
    (hsmall : ∀ event ∈ events, event.Small) :
    profile events = some (.ofEvents events) ∧ (Profile.ofEvents events).Few events.length := by
  induction events using List.reverseRecOn with
  | nil => exact ⟨rfl, fun _ => Nat.zero_le _⟩
  | append_singleton events event ih =>
    rw [List.length_append, List.length_singleton] at hfew ⊢
    obtain ⟨hbefore, hevent⟩ := List.forall_mem_append.1 hsmall
    obtain ⟨hprofile, hcount⟩ := ih (by omega) hbefore
    obtain ⟨hstep, hcount'⟩ :=
      observe_eq hcount (by omega) (hevent event (List.mem_singleton.2 rfl))
    rw [Profile.ofEvents_concat]
    refine ⟨?_, hcount'⟩
    rw [profile] at hprofile ⊢
    rw [List.foldlM_append, hprofile, Option.bind_eq_bind, Option.bind_some, List.foldlM_cons,
      hstep]
    rfl

theorem foldlM_plus {start : ReadCounts} {cs : List ReadCounts}
    (h : ∀ k : Counter,
      (k.value start).toNat + (cs.map fun c => (k.value c).toNat).sum < UInt64.size) :
    cs.foldlM plus start = some (cs.foldl (· + ·) start) := by
  induction cs generalizing start with
  | nil => rfl
  | cons c cs ih =>
    simp only [List.map_cons, List.sum_cons] at h
    rw [List.foldlM_cons, plus_eq, Option.bind_eq_bind, Option.bind_some, ih, List.foldl_cons]
    · intro k
      have hk := h k
      have hadd := k.toNat_add_le start c
      omega
    · intro k
      have hk := h k
      omega

theorem totals_eq {p : Profile} {loads : Nat} (hp : p.Few loads) (hloads : loads < UInt32.size) :
    totals p = some p.totals := by
  apply foldlM_plus
  intro k
  have hsums := hp k
  have hmul : UInt32.size * loads < UInt64.size := Nat.mul_lt_mul_of_pos_left hloads (by decide)
  rw [Counter.sumOver] at hsums
  rw [k.counts.zero, UInt64.toNat_zero, List.map_map]
  exact (Nat.zero_add _).trans_lt (hsums.trans_lt hmul)

end Guarded

structure Histogram.Fits (h : Histogram) : Prop where
  counts : ∀ e ∈ h.counts, e.2 < UInt64.size
  invalid : h.invalid < UInt64.size
  total : h.total < UInt64.size

namespace Histogram

theorem le_sumOf {entries : List (Int × Nat)} {e : Int × Nat} (h : e ∈ entries) :
    e.2 ≤ sumOf entries := by
  induction entries with
  | nil => cases h
  | cons k rest ih =>
    rw [sumOf]
    rcases List.mem_cons.1 h with rfl | h
    · exact Nat.le_add_right _ _
    · exact (ih h).trans (Nat.le_add_left _ _)

theorem fits_of_total {h : Histogram} (htotal : h.total < UInt64.size) : h.Fits where
  counts _ he := ((le_sumOf he).trans (Nat.le_add_right _ _)).trans_lt htotal
  invalid := (Nat.le_add_left _ _).trans_lt htotal
  total := htotal

end Histogram

/-- Sums over one column of a catalog: the end rows of its blocks, the ends of their bytes, and the
byte sums, which add up block by block. -/
structure ColumnRecord.SumsExact (c : ColumnRecord) : Prop where
  ends : ∀ b ∈ c.blocks.toList, b.endRow.toNat = b.startRow.toNat + b.rows.toNat
  stops : ∀ b ∈ c.blocks.toList, b.offset.toNat + b.compressed.toNat < addressSize
  compressed : Guarded.total BlockRecord.compressed c = some c.compressedBytes
  uncompressed : Guarded.total BlockRecord.uncompressed c = some c.uncompressedBytes

theorem ColumnRecord.Readable.sumsExact {c : ColumnRecord} {data : Array UInt8} {rows : Nat}
    (h : c.Readable data rows) (hfew : 28 * c.blocks.size < UInt32.size) : c.SumsExact where
  ends b hb := BlockRecord.endRow_toNat ((h.tiles.bounds hb).2.2.trans_lt h.rows_lt)
  stops b hb := (h.within b hb).1
  compressed := by
    rw [c.compressedBytes_eq]
    exact Guarded.total_eq _ hfew
  uncompressed := by
    rw [c.uncompressedBytes_eq]
    exact Guarded.total_eq _ hfew

def Cursor.EndExact (c : Cursor) : Prop :=
  ∀ block, c.current = some block → (block.startRow + .ofNat block.values.size).toNat =
    block.startRow.toNat + block.values.size

theorem Cursor.Sound.endExact {c : Cursor} {data : Array UInt8} {rows : Nat}
    (hs : c.Sound data) (hr : c.column.Readable data rows) : c.EndExact := by
  intro block hblock
  obtain ⟨b, hb, hcontents, hstart⟩ := hs block hblock
  rw [BlockRecord.contents_eq_decode (hr.within b hb), mapError_eq_ok] at hcontents
  have hsize := (BlockRecord.decode_ok hcontents).2
  have hend := (hr.tiles.bounds hb).2.2.trans_lt hr.rows_lt
  rw [hstart, hsize, UInt64.toNat_add, UInt64.toNat_ofNat_of_lt' (by omega)]
  exact Nat.mod_eq_of_lt hend

namespace Pass

section Histogram

variable {σ η : Type} [ColumnSource σ η] (source : σ) (width : BucketWidth)

theorem row_total_le (i : Nat) (s : State η) :
    (row source width i s).2.histogram.total ≤ s.histogram.total + 1 := by
  simp only [row]
  split
  · exact Nat.le_succ _
  · split
    · exact Nat.le_succ _
    · split
      · exact Nat.le_succ _
      · exact (Histogram.total_record _ _).le

theorem rows_total_le (i count : Nat) (s : State η) :
    (rows source width i count s).2.histogram.total ≤ s.histogram.total + count := by
  induction count generalizing i s with
  | zero => exact Nat.le_refl _
  | succ count ih =>
    have hrow := row_total_le source width i s
    simp only [rows]
    rcases hr : row source width i s with ⟨e | u, s'⟩
    · rw [hr] at hrow
      exact hrow.trans (by omega)
    · rw [hr] at hrow
      have hrest := ih (i + 1) s'
      dsimp only at hrow ⊢
      omega

end Histogram

theorem length_timed (watch : Stopwatch) (loads : Nat) (steps : List Step) :
    (timed watch loads steps).length = steps.length := by
  induction steps generalizing loads with
  | nil => rfl
  | cons step steps ih => cases step <;> simp only [timed, List.length_cons, ih]

theorem small_of_mem_timed {watch : Stopwatch} {loads : Nat} {steps : List Step}
    (h : ∀ load, .loaded load ∈ steps → ∀ k : Counter, (k.amount load).toNat < UInt32.size) :
    ∀ event ∈ timed watch loads steps, event.Small := by
  induction steps generalizing loads with
  | nil => simp [timed]
  | cons step steps ih =>
    have hlater := fun loads => @ih loads fun load hload => h load (List.mem_cons_of_mem _ hload)
    cases step with
    | started rows => exact List.forall_mem_cons.2 ⟨trivial, hlater loads⟩
    | loaded load => exact List.forall_mem_cons.2 ⟨h load List.mem_cons_self, hlater (loads + 1)⟩
    | ended => exact List.forall_mem_cons.2 ⟨trivial, hlater loads⟩

/-- What is counted over a pass stays in its words: the histogram after any of the rows, and the
profile and its totals after any of the steps. -/
structure CountsFit (t : Table) (options : ScanOptions) (scratch : Scratch) : Prop where
  histogram : ∀ handles, bindAll t options = .ok handles → ∀ count ≤ t.rowCount,
    (rows t options.width 0 count (.initial handles t.rowCount scratch)).2.histogram.Fits
  profile : ∀ front, front <+: (run t options scratch).steps → ∀ watch,
    Guarded.profile (timed watch 0 front) = some (.ofEvents (timed watch 0 front))
  totals : ∀ front, front <+: (run t options scratch).steps → ∀ watch,
    Guarded.totals (.ofEvents (timed watch 0 front)) =
      some (Profile.ofEvents (timed watch 0 front)).totals

section Opened

variable {path : String} {contents : Except String (Array UInt8)} {f : TableFile}
  (ho : TableFile.ofContents path contents = .ok f) {name : String} {t : Table}
  (ht : f.table name = .ok t) (options : ScanOptions) (scratch : Scratch)

include ho ht

theorem steps_few : (run t options scratch).steps.length < UInt32.size ∧
    ∀ load, .loaded load ∈ (run t options scratch).steps →
      ∃ (b : BlockRecord) (column : ColumnRecord), load = b.load column := by
  cases hb : bindAll t options with
  | error e =>
    rw [run, hb]
    exact ⟨(by decide : 0 < UInt32.size), by simp⟩
  | ok handles =>
    obtain ⟨hbx, hby, hbz⟩ := bindAll_eq_ok.1 hb
    obtain ⟨x, hcx, -, -⟩ := Table.bind_eq_ok.1 hbx
    obtain ⟨y, hcy, -, -⟩ := Table.bind_eq_ok.1 hby
    obtain ⟨z, hcz, -, -⟩ := Table.bind_eq_ok.1 hbz
    obtain ⟨-, hsteps⟩ := run_loads (fun _ _ => TableFile.readable ho ht) hb scratch
    rw [hsteps]
    refine ⟨?_, ?_⟩
    · have h32 : UInt32.size = 4294967296 := rfl
      have hx := TableFile.size_blocks_lt ho ht hcx
      have hy := TableFile.size_blocks_lt ho ht hcy
      have hz := TableFile.size_blocks_lt ho ht hcz
      have hvisits := length_visits hcx hcy hcz
      have hloadable : (Visit.loadable t.data (visits t options)).length ≤
          (visits t options).length := (List.takeWhile_sublist _).length_le
      have hlast : (if (errorOf (run t options scratch).result).isNone then [Step.ended]
          else []).length ≤ 1 := by
        split <;> simp
      simp only [List.length_append, List.length_cons, List.length_map]
      omega
    · intro load hload
      simp only [List.mem_append, List.mem_cons, reduceCtorEq, List.mem_map, false_or] at hload
      rcases hload with ⟨v, -, hv⟩ | hload
      · exact ⟨v.block, v.column, (Step.loaded.inj hv).symm⟩
      · split at hload <;> simp at hload

theorem countsFit : CountsFit t options scratch := by
  obtain ⟨hfew, hloads⟩ := steps_few ho ht options scratch
  have hprofile : ∀ front, front <+: (run t options scratch).steps → ∀ watch,
      Guarded.profile (timed watch 0 front) = some (.ofEvents (timed watch 0 front)) ∧
        (Profile.ofEvents (timed watch 0 front)).Few front.length := by
    intro front hfront watch
    have hlen := hfront.length_le
    have hboth := @Guarded.profile_eq (timed watch 0 front) (by rw [length_timed]; omega) (by
      apply small_of_mem_timed
      intro load hload k
      obtain ⟨b, column, rfl⟩ := hloads load (hfront.subset hload)
      exact k.amount_load_lt b column)
    rwa [length_timed] at hboth
  refine ⟨?_, fun front hfront watch => (hprofile front hfront watch).1, ?_⟩
  · intro handles _ count hcount
    apply Histogram.fits_of_total
    have htotal := rows_total_le t options.width 0 count (.initial handles t.rowCount scratch)
    have hempty : (State.initial handles t.rowCount scratch).histogram.total = 0 := rfl
    rw [hempty, Nat.zero_add] at htotal
    exact htotal.trans_lt (hcount.trans_lt t.record.rowCount.toNat_lt)
  · intro front hfront watch
    have hlen := hfront.length_le
    exact Guarded.totals_eq (hprofile front hfront watch).2 (by omega)

end Opened
end Pass

theorem TableFile.sumsExact {path : String} {contents : Except String (Array UInt8)}
    {f : TableFile} (ho : ofContents path contents = .ok f) {t : TableRecord}
    (ht : t ∈ f.catalog.tables) {c : ColumnRecord} (hc : c ∈ t.columns) : c.SumsExact := by
  exact (readable_of_mem ho ht hc).sumsExact (size_blocks_lt_of_mem ho ht hc)

/-- No sum over the numbers of a catalog wraps in a file that opens: not while it is opened, not in
what its catalog says, not in any state of a handle on a column, and not in a pass. -/
theorem TableFile.sums_never_wrap (path : String) (data : Array UInt8) (f : TableFile)
    (ho : ofContents path (.ok data) = .ok f) :
    Guarded.openFile path (.ok data) = some (.ok f) ∧
      (∀ t ∈ f.catalog.tables, ∀ c ∈ t.columns, c.SumsExact) ∧
      ∀ name t, f.table name = .ok t →
        (∀ columnName handle, t.bindAny columnName = .ok handle →
          ∀ c, Cursor.After t.data handle c → c.EndExact) ∧
        ∀ options scratch, Pass.CountsFit t options scratch := by
  refine ⟨?_, fun t ht c hc => sumsExact ho ht hc, fun name t ht => ⟨?_, ?_⟩⟩
  · rw [Guarded.openFile_eq, ho]
  · intro columnName handle hbind c hafter
    obtain ⟨column, hcol, rfl⟩ := Table.bindAny_eq_ok.1 hbind
    obtain ⟨hsound, rfl⟩ := hafter.sound
    exact hsound.endExact (readable ho ht hcol)
  · intro options scratch
    exact Pass.countsFit ho ht options scratch

theorem uneven_sums_never_wrap : ∃ f t,
    TableFile.ofContents "uneven.tbl" (.ok uneven.finish.2) = .ok f ∧ f.table "hits" = .ok t ∧
      Guarded.total BlockRecord.compressed unevenX = some 106 ∧
      ∀ watch, ∃ p, Guarded.profile (Pass.timed watch 0
          (Pass.run t ⟨"x", "y", "x", .standard⟩ .empty).steps) = some p ∧
        Guarded.totals p = some p.totals := by
  obtain ⟨-, hcolumns, htables⟩ := TableFile.sums_never_wrap "uneven.tbl" _ _ uneven_opens
  have ht : TableFile.table ⟨"uneven.tbl", uneven.finish.2, FileHeader.ofTable, uneven.catalog⟩
      "hits" = .ok ⟨uneven.finish.2, unevenHits⟩ := rfl
  refine ⟨_, _, uneven_opens, ht, ?_, ?_⟩
  · exact (hcolumns unevenHits List.mem_cons_self unevenX List.mem_cons_self).compressed
  · intro watch
    have hfit := (htables "hits" _ ht).2 ⟨"x", "y", "x", .standard⟩ .empty
    exact ⟨_, hfit.profile _ (List.prefix_refl _) watch, hfit.totals _ (List.prefix_refl _) watch⟩

end Columnar
