import Columnar.Table.Catalog.Layout

/-! Which catalogs are accepted, and where a row is found. The blocks of an accepted column tile its
rows: they follow one another from row 0 to the last row, none empty, so every row lies in exactly
one of them. The end rows ascend, and the search by halving finds that block. Rows are counted as
natural numbers here; `checkBlocks_eq_ok_iff` says when the words of the file do not wrap. -/

namespace Columnar
namespace BlockRecord

def Covers (b : BlockRecord) (row : Nat) : Prop :=
  b.startRow.toNat ≤ row ∧ row < b.startRow.toNat + b.rows.toNat

theorem endRow_toNat {b : BlockRecord} (h : b.startRow.toNat + b.rows.toNat < UInt64.size) :
    b.endRow.toNat = b.startRow.toNat + b.rows.toNat := by
  rw [endRow, UInt64.toNat_add, UInt32.toNat_toUInt64]
  exact Nat.mod_eq_of_lt h

theorem contains_iff {b : BlockRecord} (h : b.startRow.toNat + b.rows.toNat < UInt64.size)
    (row : UInt64) : b.contains row = true ↔ b.Covers row.toNat := by
  simp only [contains, Bool.and_eq_true, decide_eq_true_eq, UInt64.le_iff_toNat_le,
    UInt64.lt_iff_toNat_lt, endRow_toNat h, Covers]

end BlockRecord

/-- The blocks follow one another from row `next` to row `stop`, none empty. -/
def Tiles (next : Nat) : List BlockRecord → Nat → Prop
  | [], stop => next = stop
  | b :: bs, stop =>
    b.startRow.toNat = next ∧ 0 < b.rows.toNat ∧ Tiles (next + b.rows.toNat) bs stop

namespace Tiles

theorem le {next stop : Nat} {bs : List BlockRecord} (h : Tiles next bs stop) : next ≤ stop := by
  induction bs generalizing next with
  | nil => exact Nat.le_of_eq h
  | cons b bs ih =>
    obtain ⟨-, -, ht⟩ := h
    have := ih ht
    omega

theorem bounds {next stop : Nat} {bs : List BlockRecord} (h : Tiles next bs stop)
    {b : BlockRecord} (hb : b ∈ bs) :
    next ≤ b.startRow.toNat ∧ 0 < b.rows.toNat ∧ b.startRow.toNat + b.rows.toNat ≤ stop := by
  induction bs generalizing next with
  | nil => simp at hb
  | cons c bs ih =>
    obtain ⟨hs, hr, ht⟩ := h
    have hle := ht.le
    rcases List.mem_cons.1 hb with rfl | hm
    · omega
    · have := ih ht hm
      omega

theorem pairwise {next stop : Nat} {bs : List BlockRecord} (h : Tiles next bs stop) :
    bs.Pairwise fun a b => a.startRow.toNat + a.rows.toNat ≤ b.startRow.toNat := by
  induction bs generalizing next with
  | nil => exact .nil
  | cons b bs ih =>
    obtain ⟨hs, hr, ht⟩ := h
    refine List.pairwise_cons.2 ⟨fun c hc => ?_, ih ht⟩
    have := (ht.bounds hc).1
    omega

theorem exists_covers {next stop row : Nat} {bs : List BlockRecord} (h : Tiles next bs stop)
    (hn : next ≤ row) (hs : row < stop) : ∃ b ∈ bs, b.Covers row := by
  induction bs generalizing next with
  | nil =>
    obtain rfl : next = stop := h
    omega
  | cons b bs ih =>
    obtain ⟨hb, hr, ht⟩ := h
    by_cases hlt : row < next + b.rows.toNat
    · exact ⟨b, List.mem_cons_self, by omega, by omega⟩
    · obtain ⟨c, hc, hcov⟩ := ih ht (by omega)
      exact ⟨c, List.mem_cons_of_mem _ hc, hcov⟩

theorem index_unique {next stop row i j : Nat} {bs : List BlockRecord} (h : Tiles next bs stop)
    (hi : i < bs.length) (hj : j < bs.length) (ci : bs[i].Covers row) (cj : bs[j].Covers row) :
    i = j := by
  have hp := List.pairwise_iff_getElem.1 h.pairwise
  rcases Nat.lt_trichotomy i j with hlt | rfl | hlt
  · have := hp i j hi hj hlt
    have := ci.2
    have := cj.1
    omega
  · rfl
  · have := hp j i hj hi hlt
    have := cj.2
    have := ci.1
    omega

theorem covers_unique {next stop row : Nat} {bs : List BlockRecord} (h : Tiles next bs stop)
    {b c : BlockRecord} (hb : b ∈ bs) (hc : c ∈ bs) (kb : b.Covers row) (kc : c.Covers row) :
    b = c := by
  obtain ⟨i, hi, rfl⟩ := List.mem_iff_getElem.1 hb
  obtain ⟨j, hj, rfl⟩ := List.mem_iff_getElem.1 hc
  obtain rfl := h.index_unique hi hj kb kc
  rfl

end Tiles

namespace Layout

theorem checkBlocks_eq_ok_iff {region : DataRegion} {table column : String} {next covered : UInt64}
    {bs : List BlockRecord} (hlen : next.toNat + UInt32.size * bs.length ≤ UInt64.size) :
    checkBlocks region table column next bs = .ok covered ↔
      Tiles next.toNat bs covered.toNat ∧ ∀ b ∈ bs, region.holds b = true := by
  induction bs generalizing next with
  | nil => simp [checkBlocks, Tiles, UInt64.toNat_inj]
  | cons b bs ih =>
    have hr := b.rows.toNat_lt
    have hc : UInt32.size * (b :: bs).length = UInt32.size * bs.length + UInt32.size := by
      rw [List.length_cons, Nat.mul_add, Nat.mul_one]
    have hu : UInt32.size = 4294967296 := rfl
    simp only [checkBlocks, Tiles, List.forall_mem_cons]
    by_cases hs : b.startRow = next
    · by_cases h0 : b.rows = 0
      · simp [hs, h0]
      · have hpos : 0 < b.rows.toNat := Nat.pos_of_ne_zero fun h => h0 (UInt32.toNat_inj.1 h)
        have hsize : UInt64.size = 18446744073709551616 := rfl
        by_cases hh : region.holds b = true
        · -- A block adds less than `2 ^ 32` rows, which the bound on the number of blocks allows.
          have hend : b.endRow.toNat = next.toNat + b.rows.toNat := by
            rw [BlockRecord.endRow_toNat (by rw [hs]; omega), hs]
          have := @ih b.endRow (by omega)
          simp [hs, h0, hh, hpos, this, hend]
        · simp [hs, h0, hh]
    · have hs' : b.startRow.toNat ≠ next.toNat := fun h => hs (UInt64.toNat_inj.1 h)
      simp [hs, hs']

theorem checkColumns_eq_ok_iff {region : DataRegion} {table : TableRecord} {seen : List String}
    {cs : List ColumnRecord} :
    checkColumns region table seen cs = .ok () ↔
      ((cs.map ColumnRecord.name).Nodup ∧ ∀ c ∈ cs, c.name ∉ seen) ∧
        ∀ c ∈ cs, checkBlocks region table.name c.name 0 c.blocks.toList = .ok table.rowCount := by
  induction cs generalizing seen with
  | nil => simp [checkColumns]
  | cons c cs ih =>
    simp only [checkColumns, List.map_cons, List.nodup_cons, List.forall_mem_cons]
    by_cases hn : c.name ∈ seen
    · simp [hn]
    · cases hb : checkBlocks region table.name c.name 0 c.blocks.toList with
      | error e => simp [hn]
      | ok covered =>
        by_cases hc : covered = table.rowCount
        · simp only [hn, hc, if_false, ne_eq, not_true_eq_false, ih, List.mem_cons, not_or]
          grind
        · simp [hn, hc]

theorem checkTables_eq_ok_iff {region : DataRegion} {seen : List String} {ts : List TableRecord} :
    checkTables region seen ts = .ok () ↔
      ((ts.map TableRecord.name).Nodup ∧ ∀ t ∈ ts, t.name ∉ seen) ∧
        ∀ t ∈ ts, checkColumns region t [] t.columns = .ok () := by
  induction ts generalizing seen with
  | nil => simp [checkTables]
  | cons t ts ih =>
    simp only [checkTables, List.map_cons, List.nodup_cons, List.forall_mem_cons]
    by_cases hn : t.name ∈ seen
    · simp [hn]
    · cases hc : checkColumns region t [] t.columns with
      | error e => simp [hn]
      | ok u =>
        simp only [hn, if_false, ih, List.mem_cons, not_or]
        grind

end Layout

/-- The blocks of a column tile `rows` rows, and each lies in `region`. -/
structure ColumnRecord.Laid (c : ColumnRecord) (region : DataRegion) (rows : Nat) : Prop where
  tiles : Tiles 0 c.blocks.toList rows
  inside : ∀ b ∈ c.blocks.toList, region.holds b = true

theorem ColumnRecord.checkBlocks_eq_ok_iff_laid {c : ColumnRecord} {region : DataRegion}
    {table : String} {rows : UInt64} (hfew : c.blocks.size < UInt32.size) :
    Layout.checkBlocks region table c.name 0 c.blocks.toList = .ok rows ↔
      c.Laid region rows.toNat := by
  have hmul : UInt32.size * c.blocks.size ≤ UInt32.size * UInt32.size :=
    Nat.mul_le_mul_left _ (Nat.le_of_lt hfew)
  have hlen : (0 : UInt64).toNat + UInt32.size * c.blocks.toList.length ≤ UInt64.size := by
    rw [Array.length_toList, show (0 : UInt64).toNat = 0 from rfl, Nat.zero_add]
    exact hmul
  rw [Layout.checkBlocks_eq_ok_iff hlen]
  exact ⟨fun h => ⟨h.1, h.2⟩, fun h => ⟨h.tiles, h.inside⟩⟩

structure Catalog.Laid (c : Catalog) (region : DataRegion) : Prop where
  tables : (c.tables.map TableRecord.name).Nodup
  columns : ∀ t ∈ c.tables, (t.columns.map ColumnRecord.name).Nodup
  blocks : ∀ t ∈ c.tables, ∀ k ∈ t.columns, k.Laid region t.rowCount.toNat

theorem Catalog.validate_eq_ok_iff {c : Catalog} {region : DataRegion}
    (hlen : ∀ t ∈ c.tables, ∀ k ∈ t.columns, k.blocks.size < UInt32.size) :
    c.validate region = .ok () ↔ c.Laid region := by
  have hk : ∀ t ∈ c.tables, ∀ k ∈ t.columns,
      (Layout.checkBlocks region t.name k.name 0 k.blocks.toList = .ok t.rowCount ↔
        k.Laid region t.rowCount.toNat) :=
    fun t ht k hkt => ColumnRecord.checkBlocks_eq_ok_iff_laid (hlen t ht k hkt)
  simp only [validate, Layout.checkTables_eq_ok_iff, Layout.checkColumns_eq_ok_iff,
    List.not_mem_nil, not_false_eq_true, implies_true, and_true]
  constructor
  · rintro ⟨hn, ht⟩
    exact ⟨hn, fun t h => (ht t h).1, fun t h k hkt => (hk t h k hkt).1 ((ht t h).2 k hkt)⟩
  · rintro ⟨hn, hc, hb⟩
    exact ⟨hn, fun t h => ⟨hc t h, fun k hkt => (hk t h k hkt).2 (hb t h k hkt)⟩⟩

theorem Catalog.laid_of_validate {c : Catalog} {region : DataRegion}
    (hvalid : c.validate region = .ok ()) {t : TableRecord} (ht : t ∈ c.tables)
    {k : ColumnRecord} (hk : k ∈ t.columns) (hfew : k.blocks.size < UInt32.size) :
    k.Laid region t.rowCount.toNat := by
  have hcolumns := (Layout.checkTables_eq_ok_iff.1 hvalid).2 t ht
  have hblocks := (Layout.checkColumns_eq_ok_iff.1 hcolumns).2 k hk
  exact (ColumnRecord.checkBlocks_eq_ok_iff_laid hfew).1 hblocks

theorem partitionPoint_eq {p : Nat → Bool} {low high i : Nat} (hl : low ≤ i) (hh : i ≤ high)
    (hbelow : ∀ j, j < i → p j = true) (habove : ∀ j, i ≤ j → j < high → p j = false) :
    partitionPoint p low high = i := by
  fun_induction partitionPoint p low high with
  | case1 low high hlt middle hm ih =>
    refine ih ?_ hh habove
    by_cases hi : i ≤ middle
    · rw [habove middle hi (by omega)] at hm
      cases hm
    · omega
  | case2 low high hlt middle hm ih =>
    refine ih hl ?_ fun j hj hjm => habove j hj (by omega)
    by_cases hi : middle < i
    · exact absurd (hbelow middle hi) hm
    · omega
  | case3 low high hlt => omega

namespace ColumnRecord

theorem blockIndex?_of_covers {c : ColumnRecord} {stop : Nat}
    (ht : Tiles 0 c.blocks.toList stop) (hs : stop < UInt64.size) {row : UInt64} {i : Nat}
    (hi : i < c.blocks.size) (hcov : c.blocks[i].Covers row.toNat) :
    c.blockIndex? row = some i := by
  have hend : ∀ j (h : j < c.blocks.size),
      c.blocks[j].startRow.toNat + c.blocks[j].rows.toNat < UInt64.size := by
    intro j h
    have := (ht.bounds (Array.getElem_mem_toList h)).2.2
    omega
  have hord : ∀ j k (hk : k < c.blocks.size) (hjk : j < k),
      c.blocks[j].startRow.toNat + c.blocks[j].rows.toNat ≤ c.blocks[k].startRow.toNat :=
    fun j k hk hjk => List.pairwise_iff_getElem.1 ht.pairwise j k
      (by simpa using Nat.lt_trans hjk hk) (by simpa using hk) hjk
  have hpoint : partitionPoint (fun j => c.blocks[j]?.any fun b => b.endRow ≤ row) 0
      c.blocks.size = i := by
    refine partitionPoint_eq (Nat.zero_le i) (Nat.le_of_lt hi) (fun j hj => ?_) fun j hj hlt => ?_
    · have hjs := Nat.lt_trans hj hi
      have h1 := hord j i hi hj
      have h2 := hcov.1
      rw [Array.getElem?_eq_getElem hjs, Option.any_some, decide_eq_true_eq,
        UInt64.le_iff_toNat_le, BlockRecord.endRow_toNat (hend j hjs)]
      omega
    · have h1 := hcov.2
      have h2 : j = i ∨ i < j := by omega
      rw [Array.getElem?_eq_getElem hlt, Option.any_some, decide_eq_false_iff_not,
        UInt64.le_iff_toNat_le, BlockRecord.endRow_toNat (hend j hlt)]
      rcases h2 with rfl | h2
      · omega
      · have h3 := hord i j hlt h2
        omega
  have hcont := (BlockRecord.contains_iff (hend i hi) row).2 hcov
  simp only [blockIndex?, hpoint, Array.getElem?_eq_getElem hi, Option.any_some, hcont, if_true]

theorem blockIndex?_eq_some_iff {c : ColumnRecord} {stop : Nat}
    (ht : Tiles 0 c.blocks.toList stop) (hs : stop < UInt64.size) {row : UInt64} {i : Nat} :
    c.blockIndex? row = some i ↔ ∃ h : i < c.blocks.size, c.blocks[i].Covers row.toNat := by
  constructor
  · intro h
    simp only [blockIndex?] at h
    split at h
    · rename_i hany
      obtain rfl := Option.some.inj h
      obtain ⟨b, hb, hcont⟩ := (Option.any_eq_true _ _).1 hany
      obtain ⟨hlt, rfl⟩ := Array.getElem?_eq_some_iff.1 hb
      have hend := (ht.bounds (Array.getElem_mem_toList hlt)).2.2
      exact ⟨hlt, (BlockRecord.contains_iff (by omega) row).1 hcont⟩
    · simp at h
  · rintro ⟨hi, hcov⟩
    exact blockIndex?_of_covers ht hs hi hcov

end ColumnRecord
end Columnar
