import Mathlib.Algebra.Order.BigOperators.Group.List
import Mathlib.Algebra.Order.Group.Nat
import Columnar.Proofs.Failing
import Columnar.Proofs.ReadCounts

/-! What a profile adds to a report. It adds lines behind the report and changes nothing before
them: the counts of a pass do not depend on what was left in the scratch slot or on the times that
were measured. The lines agree with the catalog: every block of the three handles was loaded once,
so the totals are those of the three columns, each column has a line with its own blocks and bytes,
and the columns are listed in the order x, y, z, since the first row already loads a block for
each. -/

namespace Columnar

theorem toString_text (text : String) : toString text = text := rfl

theorem literal_append {first second both : String} (h : first ++ second = both) (text : String) :
    first ++ (second ++ text) = both ++ text := by
  rw [← String.append_assoc, h]

namespace Profile

structure Amounts where
  blocks : Nat
  read : Nat
  unpacked : Nat
  deriving DecidableEq

/-- What the catalog says of some columns, one that is named twice counted twice. -/
def Amounts.ofColumns (columns : List ColumnRecord) : Amounts where
  blocks := (columns.map fun c => c.blocks.size).sum
  read := (columns.map fun c => c.compressedBytes.toNat).sum
  unpacked := (columns.map fun c => c.uncompressedBytes.toNat).sum

inductive Rate : String → Prop
  | tenths (sign : String) (hsign : sign = "" ∨ sign = "-") (whole tenth : Nat)
    (h : tenth < 10) : Rate s!"{sign}{whole}.{tenth}"
  | infinite (sign : String) (hsign : sign = "" ∨ sign = "-") : Rate s!"{sign}inf"
  | notANumber : Rate "NaN"

inductive TotalLine (rows : Nat) (a : Amounts) : String → Prop
  | line (readTime scanTime : Nat) (share : String) (h : Rate share) : TotalLine rows a
      (s!"IO-Profile: rows={rows} blocks={a.blocks} read={a.read}B unpacked={a.unpacked}B" ++
        s!" io-time={readTime}us scan-time={scanTime}us io-share={share}%\n")

/-- The line of a column; the time and the rate are left open. -/
inductive ColumnLine (name : String) (a : Amounts) : String → Prop
  | line (readTime : Nat) (rate : String) (h : Rate rate) : ColumnLine name a
      (s!"IO-Profile:   {name} blocks={a.blocks} read={a.read}B unpacked={a.unpacked}B" ++
        s!" io-time={readTime}us throughput={rate}MiB/s\n")

/-- The lines of a profile: one for the totals, then one for each column. -/
inductive Summary (rows : Nat) (totals : Amounts) (columns : List (String × Amounts)) :
    List String → Prop
  | lines (first : String) (rest : List String) (hfirst : TotalLine rows totals first)
    (hrest : List.Forall₂ (fun column line => ColumnLine column.1 column.2 line) columns rest) :
    Summary rows totals columns (first :: rest)

theorem rate_fixed (x : Binary64) : Rate (Decimal.fixed 1 x) := by
  have hsign : (if x.isNegative then "-" else "") = "" ∨
      (if x.isNegative then "-" else "") = "-" := by
    split
    · exact .inr rfl
    · exact .inl rfl
  have hdigit : ∀ d < 10, (toString d).length = 1 := by decide
  simp only [Decimal.fixed]
  split
  · exact .notANumber
  · split
    · exact .infinite _ hsign
    · have hlt := Nat.mod_lt (Decimal.roundHalfEven (x.numerator * Nat.pow 10 1) x.denominator)
        (by decide : 0 < Nat.pow 10 1)
      have hrate := Rate.tenths _ hsign
        (Decimal.roundHalfEven (x.numerator * Nat.pow 10 1) x.denominator / Nat.pow 10 1) _ hlt
      -- One digit fills the only place, so nothing is put before it.
      have hnone : ∀ text : String, text ++ "".pushn '0' (1 - 1) = text :=
        fun text => String.append_empty
      rw [hdigit _ hlt, hnone]
      exact hrate

end Profile

def ReadCounts.amounts (c : ReadCounts) : Profile.Amounts :=
  ⟨c.blocks.toNat, c.compressed.toNat, c.uncompressed.toNat⟩

namespace Profile

theorem totalLine_shows (p : Profile) : TotalLine p.rowCount p.totals.amounts p.totalLine := by
  have hblocks : " " ++ "blocks=" = " blocks=" := rfl
  have htime : "B" ++ " io-time=" = "B io-time=" := rfl
  have hscan : "us" ++ " scan-time=" = "us scan-time=" := rfl
  have hrate := rate_fixed (.ofFloat p.ioShare)
  -- The share is a double, and nothing should try to compute it.
  unfold totalLine oneDecimal countsText
  generalize Decimal.fixed 1 (.ofFloat p.ioShare) = share at hrate ⊢
  have hline : TotalLine p.rowCount p.totals.amounts _ :=
    .line p.totals.time.microseconds p.scanTime.microseconds share hrate
  simpa only [toString_text, ReadCounts.amounts, String.append_assoc, literal_append hblocks,
    literal_append htime, literal_append hscan] using hline

theorem columnLine_shows (name : String) (c : ReadCounts) :
    ColumnLine name c.amounts (columnLine (name, c)) := by
  have hblocks : " " ++ "blocks=" = " blocks=" := rfl
  have htime : "B" ++ " io-time=" = "B io-time=" := rfl
  have hspeed : "us" ++ " throughput=" = "us throughput=" := rfl
  have hrate := rate_fixed (.ofFloat (throughput c))
  unfold columnLine oneDecimal countsText
  generalize Decimal.fixed 1 (.ofFloat (throughput c)) = rate at hrate ⊢
  have hline : ColumnLine name c.amounts _ := .line c.time.microseconds rate hrate
  simpa only [toString_text, ReadCounts.amounts, String.append_assoc, literal_append hblocks,
    literal_append htime, literal_append hspeed] using hline

theorem lines_summary (p : Profile) : Summary p.rowCount p.totals.amounts
    (p.columns.map fun e => (e.1, e.2.amounts)) p.lines := by
  apply Summary.lines _ _ p.totalLine_shows
  induction p.columns with
  | nil => exact .nil
  | cons e columns ih => exact .cons (columnLine_shows e.1 e.2) ih

end Profile

/-! The sums over the blocks of an opened file do not wrap: its catalog is too short for that. -/

theorem sum_ones {α : Type} (xs : List α) :
    (xs.map fun _ => (1 : UInt64)).sum = .ofNat xs.length := by
  induction xs with
  | nil => rfl
  | cons x xs ih =>
    rw [List.map_cons, List.sum_cons, ih, List.length_cons, UInt64.ofNat_add, UInt64.add_comm]
    rfl

theorem toNat_sum_le (words : List UInt64) : words.sum.toNat ≤ (words.map UInt64.toNat).sum := by
  induction words with
  | nil => exact Nat.le_refl _
  | cons n words ih =>
    rw [List.map_cons, List.sum_cons, List.sum_cons, UInt64.toNat_add]
    exact (Nat.mod_le _ _).trans (Nat.add_le_add_left ih _)

theorem toNat_sum {words : List UInt64} (h : (words.map UInt64.toNat).sum < UInt64.size) :
    words.sum.toNat = (words.map UInt64.toNat).sum := by
  induction words with
  | nil => rfl
  | cons n words ih =>
    rw [List.map_cons, List.sum_cons] at h ⊢
    have hrest := ih (by omega)
    rw [List.sum_cons, UInt64.toNat_add, hrest]
    exact Nat.mod_eq_of_lt h

theorem sum_toNat_le (sizes : List UInt32) :
    ((sizes.map UInt32.toUInt64).map UInt64.toNat).sum ≤ UInt32.size * sizes.length := by
  induction sizes with
  | nil => exact Nat.zero_le _
  | cons n sizes ih =>
    have hn : n.toUInt64.toNat < UInt32.size := n.toNat_toUInt64.trans_lt n.toNat_lt
    rw [List.map_cons, List.map_cons, List.sum_cons, List.length_cons, Nat.mul_succ]
    omega

namespace ColumnRecord

def total (word : BlockRecord → UInt32) (c : ColumnRecord) : UInt64 :=
  ((c.blocks.toList.map word).map UInt32.toUInt64).sum

theorem total_le (word : BlockRecord → UInt32) (c : ColumnRecord) :
    (c.total word).toNat ≤ UInt32.size * c.blocks.size := by
  have h := (toNat_sum_le _).trans (sum_toNat_le (c.blocks.toList.map word))
  rwa [List.length_map, Array.length_toList] at h

theorem total_one (c : ColumnRecord) : c.total (fun _ => 1) = .ofNat c.blocks.size := by
  rw [total, List.map_map, ← Array.length_toList, ← sum_ones]
  rfl

theorem compressedBytes_eq (c : ColumnRecord) :
    c.compressedBytes = c.total BlockRecord.compressed := by
  rw [compressedBytes, total, ← Array.foldl_toList, List.sum_eq_foldl, List.foldl_map,
    List.foldl_map]

theorem uncompressedBytes_eq (c : ColumnRecord) :
    c.uncompressedBytes = c.total BlockRecord.uncompressed := by
  rw [uncompressedBytes, total, ← Array.foldl_toList, List.sum_eq_foldl, List.foldl_map,
    List.foldl_map]

def loads (c : ColumnRecord) : List BlockLoad := c.blocks.toList.map fun b => b.load c

theorem map_load_visits (c : ColumnRecord) (place : Fin 3) :
    (c.visits place).map Visit.load = c.loads := by
  rw [visits, List.map_map]
  rfl

theorem filter_loads (name : String) (columns : List ColumnRecord) :
    ((columns.flatMap loads).filter fun load => load.column = name) =
      (columns.filter fun c => c.name = name).flatMap loads := by
  induction columns with
  | nil => rfl
  | cons c columns ih =>
    rw [List.flatMap_cons, List.filter_append, ih, List.filter_cons]
    by_cases h : c.name = name
    · have hall : c.loads.filter (fun load => load.column = name) = c.loads :=
        List.filter_eq_self.2 (List.forall_mem_map.2 fun _ _ => decide_eq_true h)
      rw [hall, if_pos (decide_eq_true h), List.flatMap_cons]
    · have hnone : c.loads.filter (fun load => load.column = name) = [] :=
        List.filter_eq_nil_iff.2 (List.forall_mem_map.2 fun _ _ hname => h (of_decide_eq_true hname))
      rw [hnone, List.nil_append, if_neg fun hname => h (of_decide_eq_true hname)]

theorem sum_amounts {amount : BlockLoad → UInt64} {word : BlockRecord → UInt32}
    (hword : ∀ b c, amount (b.load c) = (word b).toUInt64) (columns : List ColumnRecord) :
    ((columns.flatMap loads).map amount).sum = (columns.map (total word)).sum := by
  have hcolumn : ∀ c : ColumnRecord, c.loads.map amount =
      (c.blocks.toList.map word).map UInt32.toUInt64 := by
    intro c
    rw [loads, List.map_map, List.map_map]
    exact List.map_congr_left fun b _ => hword b c
  induction columns with
  | nil => rfl
  | cons c columns ih =>
    rw [List.flatMap_cons, List.map_append, List.sum_append, ih, List.map_cons, List.sum_cons,
      hcolumn, total]

end ColumnRecord

structure FewBlocks (columns : List ColumnRecord) : Prop where
  length_le : columns.length ≤ 3
  blocks : ∀ c ∈ columns, 28 * c.blocks.size < UInt32.size

theorem FewBlocks.sublist {columns columns' : List ColumnRecord} (h : FewBlocks columns)
    (hs : columns'.Sublist columns) : FewBlocks columns' where
  length_le := hs.length_le.trans h.length_le
  blocks c hc := h.blocks c (hs.subset hc)

theorem FewBlocks.toNat_sum {columns : List ColumnRecord} (h : FewBlocks columns)
    (word : BlockRecord → UInt32) : (columns.map (ColumnRecord.total word)).sum.toNat =
      (columns.map fun c => (c.total word).toNat).sum := by
  have hcolumn : ∀ n ∈ columns.map fun c => (c.total word).toNat, n ≤ UInt64.size / 28 := by
    rw [List.forall_mem_map]
    intro c hc
    have h32 : UInt32.size = 4294967296 := rfl
    have h64 : UInt64.size = 18446744073709551616 := rfl
    have htotal := c.total_le word
    have hblocks := h.blocks c hc
    rw [h32] at htotal hblocks
    omega
  have hsum : _ ≤ _ * _ := List.sum_le_card_nsmul _ _ hcolumn
  rw [List.length_map] at hsum
  have hbound : 3 * (UInt64.size / 28) < UInt64.size := by decide
  have hthree := Nat.mul_le_mul_right (UInt64.size / 28) h.length_le
  rw [Columnar.toNat_sum, List.map_map]
  · rfl
  · rw [List.map_map]
    exact (hsum.trans hthree).trans_lt hbound

section Reads

variable {columns : List ColumnRecord} (h : FewBlocks columns) {reads : List (BlockLoad × Duration)}
  (hloads : (reads.map Prod.fst).Perm (columns.flatMap ColumnRecord.loads))

include h hloads

theorem FewBlocks.toNat_countsOf {field : ReadCounts → UInt64} {amount : BlockLoad → UInt64}
    (hf : Profile.Counts field amount) {word : BlockRecord → UInt32}
    (hword : ∀ b c, amount (b.load c) = (word b).toUInt64) :
    (field (Profile.countsOf reads)).toNat = (columns.map fun c => (c.total word).toNat).sum := by
  have hsum := (hloads.map amount).sum_eq
  rw [List.map_map, ColumnRecord.sum_amounts hword] at hsum
  rw [hf.countsOf, ← h.toNat_sum word, ← hsum]
  rfl

theorem FewBlocks.amounts_countsOf :
    (Profile.countsOf reads).amounts = .ofColumns columns := by
  have hone : (1 : UInt64) = (1 : UInt32).toUInt64 := rfl
  have hblocks := h.toNat_countsOf hloads Profile.counts_blocks fun _ _ => hone
  have hread := h.toNat_countsOf hloads Profile.counts_compressed fun _ _ => rfl
  have hunpacked := h.toNat_countsOf hloads Profile.counts_uncompressed fun _ _ => rfl
  have hones : ∀ c ∈ columns, (c.total fun _ => 1).toNat = c.blocks.size := by
    intro c hc
    have hlt : UInt32.size < UInt64.size := by decide
    have hfew := h.blocks c hc
    rw [c.total_one, UInt64.toNat_ofNat_of_lt' (by omega)]
  rw [ReadCounts.amounts, hblocks, hread, hunpacked, List.map_congr_left hones,
    Profile.Amounts.ofColumns]
  simp only [ColumnRecord.compressedBytes_eq, ColumnRecord.uncompressedBytes_eq]

end Reads

theorem TableRecord.name_of_column? {t : TableRecord} {name : String} {c : ColumnRecord}
    (h : t.column? name = some c) : c.name = name := by
  simpa using List.find?_some h

theorem TableFile.size_blocks_lt_of_mem {path : String} {contents : Except String (Array UInt8)}
    {f : TableFile} (ho : ofContents path contents = .ok f) {t : TableRecord}
    (ht : t ∈ f.catalog.tables) {c : ColumnRecord} (hc : c ∈ t.columns) :
    28 * c.blocks.size < UInt32.size := by
  obtain ⟨-, hparse, -⟩ := ofContents_eq_ok.1 ho
  obtain ⟨-, -, footer, -, hcatalog⟩ := parse_eq_ok.1 hparse
  obtain ⟨bytes, hbytes, -, hdecode, -⟩ := readCatalog_eq_ok.1 hcatalog
  have hlen := length_catalogBytes hbytes
  obtain ⟨-, rest, rfl⟩ := Catalog.encode_of_decode hdecode
  have hblocks := Catalog.size_blocks_le ht hc
  have hencode := f.catalog.mul_blocks_le_encode
  rw [List.length_append] at hlen
  omega

theorem TableFile.size_blocks_lt {path : String} {contents : Except String (Array UInt8)}
    {f : TableFile} (ho : ofContents path contents = .ok f) {name : String} {t : Table}
    (ht : f.table name = .ok t) {columnName : String} {c : ColumnRecord}
    (hc : t.record.column? columnName = some c) : 28 * c.blocks.size < UInt32.size :=
  size_blocks_lt_of_mem ho (List.mem_of_find?_eq_some (table_eq_ok.1 ht).1)
    (List.mem_of_find?_eq_some hc)

namespace Pass

theorem timed_reads (watch : Stopwatch) (loads : Nat) (vs : List Visit) :
    ∃ reads : List (BlockLoad × Duration), reads.map Prod.fst = vs.map Visit.load ∧
      timed watch loads (vs.map (fun v => .loaded v.load) ++ [.ended]) =
        (reads.map fun r => .blockRead r.1 r.2) ++ [.scanEnd watch.timing.analysis] := by
  induction vs generalizing loads with
  | nil => exact ⟨[], rfl, rfl⟩
  | cons v vs ih =>
    obtain ⟨reads, hloads, htimed⟩ := ih (loads + 1)
    refine ⟨(v.load, watch.load loads) :: reads, ?_, ?_⟩
    · rw [List.map_cons, List.map_cons, hloads]
    · rw [List.map_cons, List.cons_append, timed, htimed]
      rfl

theorem map_reads {α : Type} {reads : List (BlockLoad × Duration)} {vs : List Visit}
    (hloads : reads.map Prod.fst = vs.map Visit.load) (g : BlockLoad → α) :
    (reads.map fun r => g r.1) = vs.map fun v => g v.load := by
  have hboth := congrArg (List.map g) hloads
  rwa [List.map_map, List.map_map] at hboth

theorem visitsIn_zero {c : ColumnRecord} {rows : Nat} (h : Tiles 0 c.blocks.toList rows)
    (hrows : 0 < rows) (place : Fin 3) : ∃ b, c.visitsIn place 0 = [⟨place, c, b⟩] := by
  obtain ⟨b, hb, hcov⟩ := h.exists_covers (Nat.le_refl 0) hrows
  refine ⟨b, ?_⟩
  rw [ColumnRecord.visitsIn_eq h hb hcov, if_pos (Nat.le_zero.1 hcov.1)]

section Blocks

variable {t : Table} {options : ScanOptions} {x y z : ColumnRecord}
  (hcx : t.record.column? options.x = some x) (hcy : t.record.column? options.y = some y)
  (hcz : t.record.column? options.z = some z)

include hcx hcy hcz

theorem visits_perm :
    (visits t options).Perm (x.visits 0 ++ y.visits 1 ++ z.visits 2) := by
  simp only [visits, handleVisits, hcx, hcy, hcz]
  exact List.mergeSort_perm _ _

theorem length_visits :
    (visits t options).length = x.blocks.size + y.blocks.size + z.blocks.size := by
  rw [(visits_perm hcx hcy hcz).length_eq]
  simp [ColumnRecord.visits, Nat.add_assoc]

theorem loads_visits_perm :
    ((visits t options).map Visit.load).Perm ([x, y, z].flatMap ColumnRecord.loads) := by
  have hperm := (visits_perm hcx hcy hcz).map Visit.load
  simpa only [List.map_append, ColumnRecord.map_load_visits, List.append_assoc, List.flatMap_cons,
    List.flatMap_nil, List.append_nil] using hperm

theorem name_of_mem_visits {v : Visit} (h : v ∈ visits t options) :
    v.column.name ∈ options.names := by
  have hv := (visits_perm hcx hcy hcz).mem_iff.1 h
  simp only [List.mem_append, ColumnRecord.mem_visits] at hv
  rcases hv with (⟨-, rfl, -⟩ | ⟨-, rfl, -⟩) | ⟨-, rfl, -⟩
  · simp [ScanOptions.names, TableRecord.name_of_column? hcx]
  · simp [ScanOptions.names, TableRecord.name_of_column? hcy]
  · simp [ScanOptions.names, TableRecord.name_of_column? hcz]

theorem names_visits (hr : ∀ name column, t.record.column? name = some column →
      column.Readable t.data t.rowCount) :
    ((visits t options).map fun v => v.column.name).eraseDups =
      if t.rowCount = 0 then [] else options.names.eraseDups := by
  have hx := (hr _ x hcx).tiles
  have hy := (hr _ y hcy).tiles
  have hz := (hr _ z hcz).tiles
  have hmem : ∀ v ∈ visits t options, v.column.name ∈ options.names :=
    fun _ hv => name_of_mem_visits hcx hcy hcz hv
  have horder := visits_eq_flatMap hx hy hz hcx hcy hcz
  cases hcount : t.rowCount with
  | zero =>
    rw [horder, hcount]
    rfl
  | succ count =>
    -- The first row has a block for each handle, so no name comes before its turn.
    obtain ⟨a, ha⟩ := visitsIn_zero hx (by omega) 0
    obtain ⟨b, hb⟩ := visitsIn_zero hy (by omega) 1
    obtain ⟨c, hc⟩ := visitsIn_zero hz (by omega) 2
    have hfirst : (startingIn x y z 0).map (fun v => v.column.name) = options.names := by
      rw [startingIn, ha, hb, hc, ScanOptions.names, ← TableRecord.name_of_column? hcx,
        ← TableRecord.name_of_column? hcy, ← TableRecord.name_of_column? hcz]
      rfl
    rw [hcount, List.range_succ_eq_map, List.flatMap_cons] at horder
    rw [horder] at hmem
    have hlater : ((((List.range count).map Nat.succ).flatMap (startingIn x y z)).map
        fun v => v.column.name).removeAll options.names = [] := by
      apply List.filter_eq_nil_iff.2
      intro name hin
      obtain ⟨v, hv, rfl⟩ := List.mem_map.1 hin
      simpa using hmem v (List.mem_append_right _ hv)
    rw [if_neg (Nat.succ_ne_zero count), horder, List.map_append, hfirst, List.eraseDups_append,
      hlater, List.eraseDups_nil, List.append_nil]

end Blocks

end Pass

/-- What a profile of a pass over a table in a file says: each block of the three columns was loaded
once for each handle, and each column that was read has a line, in the order x, y, z. -/
def Table.Summary (t : Table) (options : ScanOptions) (lines : List String) : Prop :=
  ∃ x y z, t.record.column? options.x = some x ∧ t.record.column? options.y = some y ∧
    t.record.column? options.z = some z ∧
    Profile.Summary t.rowCount (.ofColumns [x, y, z])
      (if t.rowCount = 0 then []
        else options.names.eraseDups.map fun name =>
          (name, .ofColumns ([x, y, z].filter fun c => c.name = name))) lines

namespace Pass

section Opened

variable {path : String} {contents : Except String (Array UInt8)} {f : TableFile}
  (ho : TableFile.ofContents path contents = .ok f) {name : String} {t : Table}
  (ht : f.table name = .ok t) {options : ScanOptions} {x y z : ColumnRecord}
  (hcx : t.record.column? options.x = some x) (hcy : t.record.column? options.y = some y)
  (hcz : t.record.column? options.z = some z)

include ho ht hcx hcy hcz

theorem fewBlocks : FewBlocks [x, y, z] where
  length_le := Nat.le_refl 3
  blocks := by
    simp only [List.forall_mem_cons]
    exact ⟨TableFile.size_blocks_lt ho ht hcx, TableFile.size_blocks_lt ho ht hcy,
      TableFile.size_blocks_lt ho ht hcz, List.forall_mem_nil _⟩

theorem summary_of_reads {p : Profile} {reads : List (BlockLoad × Duration)}
    (hrows : p.rowCount = t.rowCount) (hp : p.columns = Profile.readColumns reads)
    (hloads : reads.map Prod.fst = (visits t options).map Visit.load) :
    t.Summary options p.lines := by
  have hfew := fewBlocks ho ht hcx hcy hcz
  have hperm := loads_visits_perm hcx hcy hcz
  rw [← hloads] at hperm
  have htotals : p.totals.amounts = .ofColumns [x, y, z] := by
    rw [Profile.totals_eq_sum, hp, Profile.sum_readColumns, hfew.amounts_countsOf hperm]
  have hnamed : ∀ name, (Profile.countsOf (Profile.readsOf name reads)).amounts =
      .ofColumns ([x, y, z].filter fun c => c.name = name) := by
    intro name
    apply (hfew.sublist List.filter_sublist).amounts_countsOf
    rw [← ColumnRecord.filter_loads, Profile.readsOf]
    have hfilter := hperm.filter fun load => load.column = name
    rwa [List.filter_map] at hfilter
  have hnames : (reads.map fun r => r.1.column).eraseDups =
      if t.rowCount = 0 then [] else options.names.eraseDups := by
    rw [map_reads hloads BlockLoad.column]
    exact names_visits hcx hcy hcz fun _ _ => TableFile.readable ho ht
  have hsummary := p.lines_summary
  rw [hrows, htotals, hp, Profile.readColumns_eq, List.map_map, hnames, apply_ite (List.map _),
    List.map_nil] at hsummary
  simp only [Function.comp_def, hnamed] at hsummary
  exact ⟨x, y, z, hcx, hcy, hcz, hsummary⟩

end Opened

/-- What two passes report, the first of them with a profile: both fail alike and write nothing, or
both have one tally and the same lines up to their times, and behind those of the first come the
lines of its profile. -/
inductive Reported (taken : Array UInt8) (timing timing' : Timing) (summary : List String → Prop) :
    Except ScanError Tally × Sink → Except ScanError Tally × Sink → Prop
  | failed (e : ScanError) :
    Reported taken timing timing' summary (.error e, ⟨none, taken⟩) (.error e, ⟨none, taken⟩)
  | counted (tally : Tally) (body lines : List String) (h : summary lines) :
    Reported taken timing timing' summary
      (.ok tally, ⟨none, taken ++ Sink.bytesOf (body ++ Report.timeLines timing ++ lines)⟩)
      (.ok tally, ⟨none, taken ++ Sink.bytesOf (body ++ Report.timeLines timing')⟩)

theorem Outcome.report_of_ok {o : Outcome} {tally : Tally} (h : o.result = .ok tally)
    (watch : Stopwatch) (profiled showBuckets : Bool) (taken : Array UInt8) :
    o.report watch profiled showBuckets ⟨none, taken⟩ = (.ok tally,
      ⟨none, taken ++ Sink.bytesOf (o.reportLines tally watch profiled showBuckets)⟩) := by
  unfold report
  rw [h]
  simp only [Sink.writeAll_unlimited]

theorem reported {o o' : Outcome} {summary : List String → Prop} {watch : Stopwatch}
    (hresult : o'.result = o.result)
    (hsummary : ∀ tally, o.result = .ok tally →
      summary (Profile.ofEvents (timed watch 0 o.steps)).lines)
    (watch' : Stopwatch) (showBuckets : Bool) (taken : Array UInt8) :
    Reported taken watch.timing watch'.timing summary
      (o.report watch true showBuckets ⟨none, taken⟩)
      (o'.report watch' false showBuckets ⟨none, taken⟩) := by
  cases hr : o.result with
  | error e =>
    rw [(Outcome.Silent.of_error hr).2, (Outcome.Silent.of_error (hresult.trans hr)).2]
    exact .failed e
  | ok tally =>
    rw [Outcome.report_of_ok hr, Outcome.report_of_ok (hresult.trans hr)]
    have hlines : ∀ timing, Report.lines showBuckets tally.histogram timing =
        (if showBuckets then tally.histogram.counts.map Report.bucketLine else []) ++
          [Report.foundLine tally.histogram] ++ Report.timeLines timing := by
      intro timing
      rw [Report.lines, List.append_assoc, List.singleton_append]
    simp only [Outcome.reportLines, if_true, Bool.false_eq_true, if_false, List.append_nil, hlines]
    exact .counted tally _ _ (hsummary tally hr)

theorem summary_of_memory {m : MemoryTable} {options : ScanOptions} {scratch : Scratch}
    {tally : Tally} (h : (run m options scratch).result = .ok tally) (watch : Stopwatch) :
    Profile.Summary m.rowCount ⟨0, 0, 0⟩ []
      (Profile.ofEvents (timed watch 0 (run m options scratch).steps)).lines := by
  have hsteps : (run m options scratch).steps = [.started m.rowCount, .ended] := by
    unfold run at h ⊢
    cases hb : bindAll m options with
    | error e =>
      rw [hb] at h
      cases h
    | ok handles =>
      simp only [hb] at h
      have hnone := errorOf_eq_none.2 ⟨tally, h⟩
      rw [errorOf_ofRows] at hnone
      simp only [steps_ofRows, rows_steps_of_memory, hnone]
      rfl
  rw [hsteps]
  exact Profile.lines_summary ⟨m.rowCount, watch.timing.analysis, []⟩

theorem exists_columns {t : Table} {options : ScanOptions} {scratch : Scratch} {tally : Tally}
    (h : (run t options scratch).result = .ok tally) : ∃ handles x y z,
      bindAll t options = .ok handles ∧ t.record.column? options.x = some x ∧
        t.record.column? options.y = some y ∧ t.record.column? options.z = some z := by
  cases hb : bindAll t options with
  | error e =>
    rw [run, hb] at h
    cases h
  | ok handles =>
    obtain ⟨hbx, hby, hbz⟩ := bindAll_eq_ok.1 hb
    obtain ⟨x, hcx, -, -⟩ := Table.bind_eq_ok.1 hbx
    obtain ⟨y, hcy, -, -⟩ := Table.bind_eq_ok.1 hby
    obtain ⟨z, hcz, -, -⟩ := Table.bind_eq_ok.1 hbz
    exact ⟨handles, x, y, z, rfl, hcx, hcy, hcz⟩

theorem summary_of_file {path : String} {contents : Except String (Array UInt8)} {f : TableFile}
    (ho : TableFile.ofContents path contents = .ok f) {name : String} {t : Table}
    (ht : f.table name = .ok t) {options : ScanOptions} {scratch : Scratch} {tally : Tally}
    (h : (run t options scratch).result = .ok tally) (watch : Stopwatch) :
    t.Summary options (Profile.ofEvents (timed watch 0 (run t options scratch).steps)).lines := by
  obtain ⟨handles, x, y, z, hb, hcx, hcy, hcz⟩ := exists_columns h
  obtain ⟨herror, hsteps⟩ := run_loads (fun _ _ => TableFile.readable ho ht) hb scratch
  rw [h] at herror hsteps
  rw [Visit.loadable_of_none herror.symm] at hsteps
  obtain ⟨reads, hloads, htimed⟩ := timed_reads watch 0 (visits t options)
  have hprofile : Profile.ofEvents (timed watch 0 (run t options scratch).steps) =
      ⟨t.rowCount, watch.timing.analysis, Profile.readColumns reads⟩ := by
    rw [hsteps, errorOf, Option.isNone_none, if_pos rfl, List.cons_append, timed, htimed]
    exact Profile.ofEvents_reads _ reads _
  rw [hprofile]
  exact summary_of_reads ho ht hcx hcy hcz rfl rfl hloads

/-- A profile changes nothing about a pass but the lines behind its report, and for a table in a
file these agree with the catalog. -/
theorem profile_adds_summary :
    (∀ (m : MemoryTable) (options : ScanOptions) (scratch scratch' : Scratch)
      (watch watch' : Stopwatch) (showBuckets : Bool) (taken : Array UInt8),
      Reported taken watch.timing watch'.timing (Profile.Summary m.rowCount ⟨0, 0, 0⟩ [])
        ((run m options scratch).report watch true showBuckets ⟨none, taken⟩)
        ((run m options scratch').report watch' false showBuckets ⟨none, taken⟩)) ∧
    ∀ (path : String) (contents : Except String (Array UInt8)) (f : TableFile),
      TableFile.ofContents path contents = .ok f → ∀ (name : String) (t : Table),
        f.table name = .ok t → ∀ (options : ScanOptions) (scratch scratch' : Scratch)
          (watch watch' : Stopwatch) (showBuckets : Bool) (taken : Array UInt8),
          Reported taken watch.timing watch'.timing (t.Summary options)
            ((run t options scratch).report watch true showBuckets ⟨none, taken⟩)
            ((run t options scratch').report watch' false showBuckets ⟨none, taken⟩) := by
  refine ⟨?_, ?_⟩
  · intro m options scratch scratch' watch watch' showBuckets taken
    have hs := MemoryTable.steady m
    apply reported (by rw [run_result hs, run_result hs])
    intro tally h
    exact summary_of_memory h watch
  · intro path contents f ho name t ht options scratch scratch' watch watch' showBuckets taken
    have hs := TableFile.steady ho ht
    apply reported (by rw [run_result hs, run_result hs])
    intro tally h
    exact summary_of_file ho ht h watch

theorem uneven_adds_summary : ∃ f t tally body lines,
    TableFile.ofContents "uneven.tbl" (.ok uneven.finish.2) = .ok f ∧ f.table "hits" = .ok t ∧
      (run t ⟨"x", "y", "x", .standard⟩ .empty).report .stopped true true ⟨none, #[]⟩ =
        (.ok tally, ⟨none, (#[] : Array UInt8) ++
          Sink.bytesOf (body ++ Report.timeLines .zero ++ lines)⟩) ∧
      (run t ⟨"x", "y", "x", .standard⟩ .empty).report .stopped false true ⟨none, #[]⟩ =
        (.ok tally, ⟨none, (#[] : Array UInt8) ++
          Sink.bytesOf (body ++ Report.timeLines .zero)⟩) ∧
      Profile.Summary 5 ⟨8, 296, 248⟩ [("x", ⟨6, 212, 176⟩), ("y", ⟨2, 84, 72⟩)] lines := by
  obtain ⟨tally, hrun⟩ := uneven_counted
  have hreported := profile_adds_summary.2 "uneven.tbl" _ _ uneven_opens "hits"
    ⟨uneven.finish.2, unevenHits⟩ rfl ⟨"x", "y", "x", .standard⟩ .empty .empty .stopped .stopped
    true #[]
  generalize hprofiled : Outcome.report _ .stopped true true _ = profiled at hreported
  generalize hplain : Outcome.report _ .stopped false true _ = plain at hreported
  cases hreported with
  | failed e =>
    rw [Outcome.report_of_ok hrun] at hplain
    cases (Prod.mk.inj hplain).1
  | counted tally body lines h =>
    obtain ⟨x, y, z, hx, hy, hz, hsummary⟩ := h
    obtain rfl : unevenX = x := Option.some.inj hx
    obtain rfl : unevenY = y := Option.some.inj hy
    obtain rfl : unevenX = z := Option.some.inj hz
    exact ⟨_, _, tally, body, lines, uneven_opens, rfl, hprofiled, hplain, hsummary⟩

end Pass
end Columnar
