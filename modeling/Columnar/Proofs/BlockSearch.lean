import Columnar.Proofs.LayoutRule

/-! Looking for the block of a row. In a column that was accepted the last rows of the blocks ascend,
so the blocks that end before a row stand in front, and the search by halving stops behind them: at
the only block that contains the row, or behind all blocks if there is no such row. Going through the
blocks one after the other finds the same place. -/

namespace Columnar

theorem Tiles.ends_ascend {next stop : Nat} {bs : List BlockRecord} (h : Tiles next bs stop) :
    bs.Pairwise fun a b =>
      a.startRow.toNat + a.rows.toNat < b.startRow.toNat + b.rows.toNat := by
  apply h.pairwise.imp_of_mem
  intro a b _ hb hab
  have hpos := (h.bounds hb).2.1
  omega

namespace ColumnRecord

variable {c : ColumnRecord} {region : DataRegion} {rows row : UInt64}

namespace Laid

theorem endRow_toNat (h : c.Laid region rows.toNat) {b : BlockRecord}
    (hb : b ∈ c.blocks.toList) : b.endRow.toNat = b.startRow.toNat + b.rows.toNat :=
  BlockRecord.endRow_toNat (Nat.lt_of_le_of_lt (h.tiles.bounds hb).2.2 rows.toNat_lt)

theorem contains_iff (h : c.Laid region rows.toNat) {b : BlockRecord}
    (hb : b ∈ c.blocks.toList) : b.contains row = true ↔ b.Covers row.toNat :=
  BlockRecord.contains_iff (Nat.lt_of_le_of_lt (h.tiles.bounds hb).2.2 rows.toNat_lt) row

theorem endRows_ascend (h : c.Laid region rows.toNat) :
    c.blocks.toList.Pairwise fun a b => a.endRow < b.endRow := by
  apply h.tiles.ends_ascend.imp_of_mem
  intro a b ha hb hab
  rwa [UInt64.lt_iff_toNat_lt, h.endRow_toNat ha, h.endRow_toNat hb]

theorem not_covers_of_le (h : c.Laid region rows.toNat) (hle : rows ≤ row) {b : BlockRecord}
    (hb : b ∈ c.blocks.toList) : ¬b.Covers row.toNat := by
  intro hcov
  have hend := (h.tiles.bounds hb).2.2
  have hlt := hcov.2
  rw [UInt64.le_iff_toNat_le] at hle
  omega

theorem exists_covers (h : c.Laid region rows.toNat) (hlt : row < rows) :
    ∃ (i : Nat) (hi : i < c.blocks.size), c.blocks[i].Covers row.toNat := by
  obtain ⟨b, hb, hcov⟩ :=
    h.tiles.exists_covers (Nat.zero_le row.toNat) (UInt64.lt_iff_toNat_lt.1 hlt)
  obtain ⟨i, hi, rfl⟩ := List.mem_iff_getElem.1 hb
  exact ⟨i, hi, hcov⟩

theorem blockIndex?_of_le (h : c.Laid region rows.toNat) (hle : rows ≤ row) :
    c.blockIndex? row = none := by
  apply Option.eq_none_iff_forall_ne_some.2
  intro i hi
  obtain ⟨hlt, hcov⟩ := (blockIndex?_eq_some_iff h.tiles rows.toNat_lt).1 hi
  exact h.not_covers_of_le hle (Array.getElem_mem_toList hlt) hcov

theorem findIdx?_of_covers (h : c.Laid region rows.toNat) {i : Nat} (hi : i < c.blocks.size)
    (hcov : c.blocks[i].Covers row.toNat) :
    c.blocks.findIdx? (fun b => b.contains row) = some i := by
  refine Array.findIdx?_eq_some_iff_getElem.2 ⟨hi, ?_, ?_⟩
  · exact (h.contains_iff (Array.getElem_mem_toList hi)).2 hcov
  · intro j hji hcont
    have hj := Nat.lt_trans hji hi
    have hcov' := (h.contains_iff (Array.getElem_mem_toList hj)).1 hcont
    exact Nat.ne_of_lt hji (h.tiles.index_unique hj hi hcov' hcov)

theorem findIdx?_of_le (h : c.Laid region rows.toNat) (hle : rows ≤ row) :
    c.blocks.findIdx? (fun b => b.contains row) = none := by
  rw [Array.findIdx?_eq_none_iff]
  intro b hb
  rw [Bool.eq_false_iff, ne_eq, h.contains_iff hb.val]
  exact h.not_covers_of_le hle hb.val

end Laid
end ColumnRecord

/-- In a catalog that is accepted, searching a column for a row finds the only block that contains
it, and nothing if the table has no such row. Going from block to block finds the same. -/
theorem Catalog.search_finds_only_block (c : Catalog) (start stop : UInt64)
    (hvalid : c.validate ⟨start, stop⟩ = .ok ()) (t : TableRecord) (ht : t ∈ c.tables)
    (k : ColumnRecord) (hk : k ∈ t.columns) (hfew : k.blocks.size < UInt32.size) (row : UInt64) :
    (row < t.rowCount → ∃ (i : Nat) (hi : i < k.blocks.size), k.blockIndex? row = some i ∧
      k.blocks[i].startRow.toNat ≤ row.toNat ∧
      row.toNat < k.blocks[i].startRow.toNat + k.blocks[i].rows.toNat ∧
      ∀ (j : Nat) (hj : j < k.blocks.size), k.blocks[j].contains row = true ↔ j = i) ∧
    (t.rowCount ≤ row → k.blockIndex? row = none) ∧
    k.blockIndex? row = k.blocks.findIdx? (fun b => b.contains row) ∧
    k.blocks.toList.Pairwise fun a b => a.endRow < b.endRow := by
  have h := laid_of_validate hvalid ht hk hfew
  refine ⟨?_, h.blockIndex?_of_le, ?_, h.endRows_ascend⟩
  · intro hlt
    obtain ⟨i, hi, hcov⟩ := h.exists_covers hlt
    refine ⟨i, hi, ColumnRecord.blockIndex?_of_covers h.tiles t.rowCount.toNat_lt hi hcov,
      hcov.1, hcov.2, ?_⟩
    intro j hj
    rw [h.contains_iff (Array.getElem_mem_toList hj)]
    constructor
    · intro hcov'
      exact h.tiles.index_unique hj hi hcov' hcov
    · intro hji
      subst hji
      exact hcov
  · rcases UInt64.lt_or_le row t.rowCount with hlt | hle
    · obtain ⟨i, hi, hcov⟩ := h.exists_covers hlt
      rw [ColumnRecord.blockIndex?_of_covers h.tiles t.rowCount.toNat_lt hi hcov,
        h.findIdx?_of_covers hi hcov]
    · rw [h.blockIndex?_of_le hle, h.findIdx?_of_le hle]

theorem unevenX_searched :
    uneven.catalog.validate ⟨20, 210⟩ = .ok () ∧ unevenX.blocks.size < UInt32.size ∧
      (3 : UInt64) < unevenHits.rowCount ∧ unevenHits.rowCount ≤ (5 : UInt64) ∧
      unevenX.blockIndex? 3 = some 1 ∧
      (∀ (j : Nat) (hj : j < unevenX.blocks.size),
        unevenX.blocks[j].contains 3 = true ↔ j = 1) ∧
      unevenX.blockIndex? 5 = none := by
  have hvalid : uneven.catalog.validate ⟨20, 210⟩ = .ok () := by decide +kernel
  have hfew : unevenX.blocks.size < UInt32.size := by decide
  have hlt : (3 : UInt64) < unevenHits.rowCount := by decide
  have hle : unevenHits.rowCount ≤ (5 : UInt64) := by decide
  have hsearch := Catalog.search_finds_only_block uneven.catalog 20 210 hvalid unevenHits
    List.mem_cons_self unevenX List.mem_cons_self hfew
  obtain ⟨hfound, -, hsame, -⟩ := hsearch 3
  have hindex : unevenX.blockIndex? 3 = some 1 := hsame.trans (by decide +kernel)
  obtain ⟨i, -, hi, -, -, honly⟩ := hfound hlt
  obtain rfl := Option.some.inj (hi.symm.trans hindex)
  exact ⟨hvalid, hfew, hlt, hle, hindex, honly, (hsearch 5).2.1 hle⟩

end Columnar
