import Columnar.Proofs.RoundTrip

/-! The rule for catalogs without the order in which it is checked. Blocks that ascend by their
first rows, none empty, tile the rows of a column exactly if every row lies in one block only and no
block reaches behind the last row. So the check that goes from block to block with the row that is due
accepts the catalogs that keep this rule, and no others. -/

namespace Columnar
namespace BlockRecord

theorem covers_start {b : BlockRecord} (h : 0 < b.rows.toNat) : b.Covers b.startRow.toNat :=
  ⟨Nat.le_refl _, by omega⟩

theorem covers_last {b : BlockRecord} (h : 0 < b.rows.toNat) :
    b.Covers (b.startRow.toNat + b.rows.toNat - 1) :=
  ⟨by omega, by omega⟩

end BlockRecord

namespace Tiles

variable {next stop row : Nat} {b : BlockRecord} {bs : List BlockRecord}

theorem existsUnique_covers (h : Tiles next bs stop) (hn : next ≤ row) (hs : row < stop) :
    ∃! i : Fin bs.length, bs[i].Covers row := by
  obtain ⟨b, hb, hcov⟩ := h.exists_covers hn hs
  obtain ⟨i, hi, rfl⟩ := List.mem_iff_getElem.1 hb
  refine ⟨⟨i, hi⟩, hcov, ?_⟩
  intro j hj
  exact Fin.ext (h.index_unique j.isLt hi hj hcov)

theorem ascending (h : Tiles next bs stop) :
    bs.Pairwise fun a b => a.startRow.toNat < b.startRow.toNat := by
  apply h.pairwise.imp_of_mem
  intro a b ha _ hab
  have := (h.bounds ha).2.1
  omega

theorem of_covers (hle : next ≤ stop) (hpos : ∀ b ∈ bs, 0 < b.rows.toNat)
    (hin : ∀ b ∈ bs, next ≤ b.startRow.toNat ∧ b.startRow.toNat + b.rows.toNat ≤ stop)
    (hasc : bs.Pairwise fun a b => a.startRow.toNat < b.startRow.toNat)
    (hdis : bs.Pairwise fun a b => ∀ row, a.Covers row → ¬b.Covers row)
    (hcov : ∀ row, next ≤ row → row < stop → ∃ b ∈ bs, b.Covers row) : Tiles next bs stop := by
  induction bs generalizing next with
  | nil =>
    by_contra hne
    obtain ⟨b, hb, -⟩ := hcov next (Nat.le_refl _) (Nat.lt_of_le_of_ne hle hne)
    cases hb
  | cons b bs ih =>
    obtain ⟨hb, hbs⟩ := List.forall_mem_cons.1 hpos
    obtain ⟨hbin, hbsin⟩ := List.forall_mem_cons.1 hin
    obtain ⟨hfirst, hasc⟩ := List.pairwise_cons.1 hasc
    obtain ⟨hapart, hdis⟩ := List.pairwise_cons.1 hdis
    -- The first block starts at the first row, or that row would lie in none.
    have hstart : b.startRow.toNat = next := by
      obtain ⟨c, hc, hccov⟩ := hcov next (Nat.le_refl _) (by omega)
      rcases List.mem_cons.1 hc with rfl | hc
      · have := hccov.1
        omega
      · have := hfirst c hc
        have := hccov.1
        omega
    refine ⟨hstart, hb, ih (by omega) hbs ?_ hasc hdis ?_⟩
    · intro c hc
      refine ⟨?_, (hbsin c hc).2⟩
      -- A later block that starts before the first one ends would share its own first row with it.
      by_contra hlt
      have hlater := hfirst c hc
      exact hapart c hc _ ⟨by omega, by omega⟩ (BlockRecord.covers_start (hbs c hc))
    · intro row hn hs
      obtain ⟨c, hc, hccov⟩ := hcov row (by omega) hs
      rcases List.mem_cons.1 hc with rfl | hc
      · have := hccov.2
        omega
      · exact ⟨c, hc, hccov⟩

end Tiles

namespace ColumnRecord

/-- The rule for one column of a table with `rows` rows. -/
structure Partitions (c : ColumnRecord) (region : DataRegion) (rows : Nat) : Prop where
  nonempty : ∀ b ∈ c.blocks.toList, 1 ≤ b.rows.toNat
  inside : ∀ b ∈ c.blocks.toList, region.start.toNat ≤ b.offset.toNat ∧
    b.offset.toNat + b.compressed.toNat ≤ region.stop.toNat
  ascending : c.blocks.toList.Pairwise fun a b => a.startRow.toNat < b.startRow.toNat
  once : ∀ row < rows, ∃! i : Fin c.blocks.toList.length, c.blocks.toList[i].Covers row
  none_behind : ∀ b ∈ c.blocks.toList, ∀ row, rows ≤ row → ¬b.Covers row

variable {c : ColumnRecord} {region : DataRegion} {rows : Nat}

theorem Partitions.last_le (h : c.Partitions region rows) {b : BlockRecord}
    (hb : b ∈ c.blocks.toList) : b.startRow.toNat + b.rows.toNat ≤ rows := by
  have hpos := h.nonempty b hb
  by_contra hlt
  exact h.none_behind b hb _ (by omega) (BlockRecord.covers_last hpos)

theorem Partitions.disjoint (h : c.Partitions region rows) :
    c.blocks.toList.Pairwise fun a b => ∀ row, a.Covers row → ¬b.Covers row := by
  apply List.pairwise_iff_getElem.2
  intro i j hi hj hij row hcov hcov'
  have hrow : row < rows := by
    have := h.last_le (List.getElem_mem hi)
    have := hcov.2
    omega
  have hsame : (⟨i, hi⟩ : Fin c.blocks.toList.length) = ⟨j, hj⟩ :=
    (h.once row hrow).unique hcov hcov'
  exact Nat.ne_of_lt hij (Fin.mk.inj hsame)

theorem laid_iff_partitions : c.Laid region rows ↔ c.Partitions region rows := by
  have hholds : ∀ b : BlockRecord, region.holds b = true ↔ region.start.toNat ≤ b.offset.toNat ∧
      b.offset.toNat + b.compressed.toNat ≤ region.stop.toNat := by
    intro b
    simp only [DataRegion.holds, Bool.and_eq_true, decide_eq_true_eq, UInt64.le_iff_toNat_le]
  constructor
  · intro h
    refine ⟨?_, fun b hb => (hholds b).1 (h.inside b hb), h.tiles.ascending, ?_, ?_⟩
    · intro b hb
      exact (h.tiles.bounds hb).2.1
    · intro row hrow
      exact h.tiles.existsUnique_covers (Nat.zero_le row) hrow
    · intro b hb row hrow hcov
      have := (h.tiles.bounds hb).2.2
      have := hcov.2
      omega
  · intro h
    refine ⟨?_, fun b hb => (hholds b).2 (h.inside b hb)⟩
    apply Tiles.of_covers (Nat.zero_le rows) h.nonempty ?_ h.ascending h.disjoint ?_
    · intro b hb
      exact ⟨Nat.zero_le _, h.last_le hb⟩
    · intro row _ hrow
      obtain ⟨i, hcov, -⟩ := h.once row hrow
      exact ⟨_, List.getElem_mem i.isLt, hcov⟩

end ColumnRecord

namespace Catalog

/-- The rule for a catalog whose blocks lie in `region`. -/
structure Lawful (c : Catalog) (region : DataRegion) : Prop where
  tables : c.tables.Pairwise fun s t => s.name ≠ t.name
  columns : ∀ t ∈ c.tables, t.columns.Pairwise fun k l => k.name ≠ l.name
  blocks : ∀ t ∈ c.tables, ∀ k ∈ t.columns, k.Partitions region t.rowCount.toNat

theorem laid_iff_lawful {c : Catalog} {region : DataRegion} :
    c.Laid region ↔ c.Lawful region := by
  constructor
  · intro h
    refine ⟨List.pairwise_map.1 h.tables, fun t ht => List.pairwise_map.1 (h.columns t ht), ?_⟩
    intro t ht k hk
    exact ColumnRecord.laid_iff_partitions.1 (h.blocks t ht k hk)
  · intro h
    refine ⟨List.pairwise_map.2 h.tables, fun t ht => List.pairwise_map.2 (h.columns t ht), ?_⟩
    intro t ht k hk
    exact ColumnRecord.laid_iff_partitions.2 (h.blocks t ht k hk)

/-- A catalog is accepted exactly if it keeps the rule. -/
theorem validate_decides_rule (c : Catalog) (start stop : UInt64)
    (hfew : ∀ t ∈ c.tables, ∀ k ∈ t.columns, k.blocks.size < UInt32.size) :
    c.validate ⟨start, stop⟩ = .ok () ↔ c.Lawful ⟨start, stop⟩ := by
  rw [validate_eq_ok_iff hfew, laid_iff_lawful]

def holed : Catalog :=
  ⟨[⟨"hits", 5, [unevenX, ⟨"y", .float64, #[⟨0, 2, 126, 46, 40⟩, ⟨3, 2, 172, 38, 32⟩]⟩]⟩]⟩

theorem uneven_lawful_holed_not :
    uneven.catalog.Lawful ⟨20, 210⟩ ∧ ¬holed.Lawful ⟨20, 210⟩ := by
  refine ⟨?_, ?_⟩
  · exact (validate_decides_rule uneven.catalog 20 210 (by decide +kernel)).1 (by decide +kernel)
  · intro h
    have hok := (validate_decides_rule holed 20 210 (by decide +kernel)).2 h
    have hbad : holed.validate ⟨20, 210⟩ = .error (.unexpectedStart "hits" "y" 3 2) := by
      decide +kernel
    rw [hbad] at hok
    cases hok

end Catalog
end Columnar
