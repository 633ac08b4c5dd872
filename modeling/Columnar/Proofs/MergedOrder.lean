import Mathlib.Data.Fin.VecNotation
import Mathlib.Data.List.Perm.Basic
import Columnar.Proofs.Reading
import Columnar.Scan.Pass

/-! The order of the blocks in a pass. Three handles have their blocks, those of one handle one after
another; together they are ordered by their first rows, and those that start in one row as x, y, z.
The columns may be cut at different rows, and they may be one column. `visits_eq_flatMap` lists the
same order row by row: a row has the blocks that start in it. -/

namespace Columnar

/-- A block under one of three handles; the places 0, 1 and 2 are those of x, y and z. -/
structure Visit where
  place : Fin 3
  column : ColumnRecord
  block : BlockRecord

namespace Visit

def row (v : Visit) : Nat := v.block.startRow.toNat

/-- Not later: from an earlier row, or from the same row and not behind it among x, y and z. -/
def precedes (a b : Visit) : Bool := a.row < b.row || (a.row = b.row && a.place ≤ b.place)

def load (v : Visit) : BlockLoad :=
  ⟨v.column.name, v.block.rows, v.block.compressed.toUInt64, v.block.uncompressed.toUInt64⟩

theorem precedes_iff {a b : Visit} :
    a.precedes b = true ↔ a.row < b.row ∨ a.row = b.row ∧ a.place ≤ b.place := by
  simp [precedes]

theorem precedes_trans (a b c : Visit) (hab : a.precedes b = true) (hbc : b.precedes c = true) :
    a.precedes c = true := by
  rw [precedes_iff] at hab hbc ⊢
  omega

theorem precedes_total (a b : Visit) : (a.precedes b || b.precedes a) = true := by
  rw [Bool.or_eq_true, precedes_iff, precedes_iff]
  omega

end Visit

theorem Tiles.filter_start {next stop : Nat} {bs : List BlockRecord} (h : Tiles next bs stop)
    {b : BlockRecord} (hb : b ∈ bs) :
    bs.filter (fun k => k.startRow.toNat = b.startRow.toNat) = [b] := by
  induction bs generalizing next with
  | nil => cases hb
  | cons c bs ih =>
    obtain ⟨hs, hr, ht⟩ := h
    rcases List.mem_cons.1 hb with rfl | hm
    · have hrest : bs.filter (fun k => k.startRow.toNat = b.startRow.toNat) = [] := by
        apply List.filter_eq_nil_iff.2
        intro k hk
        have := (ht.bounds hk).1
        simp only [decide_eq_true_eq]
        omega
      rw [List.filter_cons_of_pos (by simp), hrest]
    · have := (ht.bounds hm).1
      rw [List.filter_cons_of_neg (by simp only [decide_eq_true_eq]; omega)]
      exact ih ht hm

theorem Tiles.filter_start_of_covers {next stop row : Nat} {bs : List BlockRecord}
    (h : Tiles next bs stop) {b : BlockRecord} (hb : b ∈ bs) (hcov : b.Covers row) :
    bs.filter (fun k => k.startRow.toNat = row) = if b.startRow.toNat = row then [b] else [] := by
  split
  · rename_i hstart
    rw [← hstart]
    exact h.filter_start hb
  · rename_i hstart
    apply List.filter_eq_nil_iff.2
    intro k hk hrow
    have hkrow : k.startRow.toNat = row := of_decide_eq_true hrow
    have hkpos := (h.bounds hk).2.1
    have hkcov : k.Covers row := ⟨by omega, by omega⟩
    rw [h.covers_unique hk hb hkcov hcov] at hkrow
    exact hstart hkrow

theorem Tiles.start_unique {next stop : Nat} {bs : List BlockRecord} (h : Tiles next bs stop)
    {b c : BlockRecord} (hb : b ∈ bs) (hc : c ∈ bs)
    (heq : b.startRow.toNat = c.startRow.toNat) : b = c := by
  have hpb := (h.bounds hb).2.1
  have hpc := (h.bounds hc).2.1
  have kb : b.Covers b.startRow.toNat := ⟨by omega, by omega⟩
  have kc : c.Covers b.startRow.toNat := ⟨by omega, by omega⟩
  exact h.covers_unique hb hc kb kc

namespace ColumnRecord

def visits (c : ColumnRecord) (place : Fin 3) : List Visit :=
  c.blocks.toList.map fun block => ⟨place, c, block⟩

def visitsIn (c : ColumnRecord) (place : Fin 3) (row : Nat) : List Visit :=
  (c.visits place).filter fun v => v.row = row

theorem mem_visits {c : ColumnRecord} {place : Fin 3} {v : Visit} :
    v ∈ c.visits place ↔ v.place = place ∧ v.column = c ∧ v.block ∈ c.blocks.toList := by
  constructor
  · intro h
    obtain ⟨b, hb, rfl⟩ := List.mem_map.1 h
    exact ⟨rfl, rfl, hb⟩
  · rintro ⟨rfl, rfl, hb⟩
    exact List.mem_map_of_mem hb

theorem visits_pairwise (c : ColumnRecord) (place : Fin 3) :
    (c.visits place).Pairwise fun a b => a.place ≤ b.place := by
  refine List.pairwise_of_forall_mem_list ?_
  intro a ha b hb
  rw [(mem_visits.1 ha).1, (mem_visits.1 hb).1]

theorem visitsIn_eq {c : ColumnRecord} {rows row : Nat} (h : Tiles 0 c.blocks.toList rows)
    {b : BlockRecord} (hb : b ∈ c.blocks.toList) (hcov : b.Covers row) (place : Fin 3) :
    c.visitsIn place row = if b.startRow.toNat = row then [⟨place, c, b⟩] else [] := by
  rw [visitsIn, visits, List.filter_map]
  refine (congrArg (List.map _) (h.filter_start_of_covers hb hcov)).trans ?_
  split <;> rfl

end ColumnRecord

theorem flatMap_filter_perm {α : Type} (row : α → Nat) {n : Nat} {xs : List α}
    (h : ∀ x ∈ xs, row x < n) :
    ((List.range n).flatMap fun i => xs.filter fun x => row x = i).Perm xs := by
  induction n generalizing xs with
  | zero =>
    obtain rfl : xs = [] := List.eq_nil_iff_forall_not_mem.2 fun x hx => Nat.not_lt_zero _ (h x hx)
    exact .nil
  | succ n ih =>
    -- Row `n` takes what does not lie in an earlier row, and the rows below share the rest.
    have hlast : (xs.filter fun x => row x = n) = xs.filter fun x => !decide (row x < n) := by
      apply List.filter_congr
      intro x hx
      have := h x hx
      rw [← decide_not, decide_eq_decide]
      omega
    have hfront : ((List.range n).flatMap fun i => xs.filter fun x => row x = i) =
        (List.range n).flatMap fun i =>
          (xs.filter fun x => row x < n).filter fun x => row x = i := by
      apply List.flatMap_congr
      intro i hi
      have := List.mem_range.1 hi
      rw [List.filter_filter]
      apply List.filter_congr
      intro x _
      rw [← Bool.decide_and, decide_eq_decide]
      omega
    have hperm := @ih (xs.filter fun x => row x < n) fun x hx => by
      simpa using (List.mem_filter.1 hx).2
    rw [List.range_succ, List.flatMap_append, List.flatMap_singleton, hlast, hfront]
    exact (hperm.append_right _).trans (List.filter_append_perm _ xs)

theorem flatMap_filter_pairwise {n : Nat} {vs : List Visit}
    (h : vs.Pairwise fun a b => a.place ≤ b.place) :
    ((List.range n).flatMap fun i => vs.filter fun v => v.row = i).Pairwise
      fun a b => a.precedes b = true := by
  refine List.pairwise_flatMap.2 ⟨?_, ?_⟩
  · intro i _
    refine (h.filter _).imp_of_mem ?_
    intro a b ha hb hle
    have hra := of_decide_eq_true (List.mem_filter.1 ha).2
    have hrb := of_decide_eq_true (List.mem_filter.1 hb).2
    exact Visit.precedes_iff.2 (Or.inr ⟨hra.trans hrb.symm, hle⟩)
  · refine List.pairwise_lt_range.imp ?_
    intro i j hij a ha b hb
    have hra : a.row = i := of_decide_eq_true (List.mem_filter.1 ha).2
    have hrb : b.row = j := of_decide_eq_true (List.mem_filter.1 hb).2
    exact Visit.precedes_iff.2 (Or.inl (by omega))

namespace Pass

def handleVisits (t : Table) (place : Fin 3) (name : String) : List Visit :=
  match t.record.column? name with
  | none => []
  | some column => column.visits place

/-- All blocks of the three handles of a pass, in their order. -/
def visits (t : Table) (options : ScanOptions) : List Visit :=
  (handleVisits t 0 options.x ++ handleVisits t 1 options.y ++ handleVisits t 2 options.z).mergeSort
    Visit.precedes

def startingIn (x y z : ColumnRecord) (row : Nat) : List Visit :=
  x.visitsIn 0 row ++ y.visitsIn 1 row ++ z.visitsIn 2 row

section Merged

variable {x y z : ColumnRecord} {rows : Nat} (hx : Tiles 0 x.blocks.toList rows)
  (hy : Tiles 0 y.blocks.toList rows) (hz : Tiles 0 z.blocks.toList rows)

include hx hy hz

theorem column_of_mem {v : Visit} (h : v ∈ x.visits 0 ++ y.visits 1 ++ z.visits 2) :
    v.column = ![x, y, z] v.place ∧ v.block ∈ v.column.blocks.toList ∧
      Tiles 0 v.column.blocks.toList rows := by
  rcases List.mem_append.1 h with h | h
  · rcases List.mem_append.1 h with h | h
    · obtain ⟨hp, rfl, hb⟩ := ColumnRecord.mem_visits.1 h
      exact ⟨by rw [hp]; rfl, hb, hx⟩
    · obtain ⟨hp, rfl, hb⟩ := ColumnRecord.mem_visits.1 h
      exact ⟨by rw [hp]; rfl, hb, hy⟩
  · obtain ⟨hp, rfl, hb⟩ := ColumnRecord.mem_visits.1 h
    exact ⟨by rw [hp]; rfl, hb, hz⟩

theorem eq_of_precedes {a b : Visit} (ha : a ∈ x.visits 0 ++ y.visits 1 ++ z.visits 2)
    (hb : b ∈ x.visits 0 ++ y.visits 1 ++ z.visits 2) (hab : a.precedes b = true)
    (hba : b.precedes a = true) : a = b := by
  obtain ⟨hca, hma, hta⟩ := column_of_mem hx hy hz ha
  obtain ⟨hcb, hmb, -⟩ := column_of_mem hx hy hz hb
  rw [Visit.precedes_iff] at hab hba
  have hplace : a.place = b.place := by omega
  have hcolumn : a.column = b.column := by rw [hca, hcb, hplace]
  have hrow : a.block.startRow.toNat = b.block.startRow.toNat := by
    simp only [Visit.row] at hab hba
    omega
  rw [← hcolumn] at hmb
  have hblock := hta.start_unique hma hmb hrow
  cases a
  cases b
  simp only at hplace hcolumn hblock
  subst hplace hcolumn hblock
  rfl

theorem row_lt_of_mem {v : Visit} (h : v ∈ x.visits 0 ++ y.visits 1 ++ z.visits 2) :
    v.row < rows := by
  obtain ⟨-, hm, ht⟩ := column_of_mem hx hy hz h
  have := ht.bounds hm
  simp only [Visit.row]
  omega

theorem visits_eq_flatMap {t : Table} {options : ScanOptions}
    (hcx : t.record.column? options.x = some x) (hcy : t.record.column? options.y = some y)
    (hcz : t.record.column? options.z = some z) :
    visits t options = (List.range rows).flatMap (startingIn x y z) := by
  have hplaces : (x.visits 0 ++ y.visits 1 ++ z.visits 2).Pairwise
      fun a b => a.place ≤ b.place := by
    refine List.pairwise_append.2 ⟨List.pairwise_append.2 ⟨x.visits_pairwise 0,
      y.visits_pairwise 1, ?_⟩, z.visits_pairwise 2, ?_⟩
    · intro a ha b hb
      rw [(ColumnRecord.mem_visits.1 ha).1, (ColumnRecord.mem_visits.1 hb).1]
      exact Fin.zero_le 1
    · intro a _ b hb
      rw [(ColumnRecord.mem_visits.1 hb).1]
      exact Fin.le_last a.place
  have hsorted := List.pairwise_mergeSort Visit.precedes_trans Visit.precedes_total
    (x.visits 0 ++ y.visits 1 ++ z.visits 2)
  have hperm := flatMap_filter_perm Visit.row fun v hv => row_lt_of_mem hx hy hz hv
  have hstarting : startingIn x y z = fun i =>
      (x.visits 0 ++ y.visits 1 ++ z.visits 2).filter fun v => v.row = i := by
    funext i
    rw [List.filter_append, List.filter_append]
    rfl
  -- Both lists hold the same blocks and ascend, and the order tells any two of them apart.
  simp only [visits, handleVisits, hcx, hcy, hcz, hstarting]
  refine List.Perm.eq_of_pairwise ?_ hsorted (flatMap_filter_pairwise hplaces)
    ((List.mergeSort_perm _ _).trans hperm.symm)
  intro a b ha hb hab hba
  exact eq_of_precedes hx hy hz (List.mem_mergeSort.1 ha) (hperm.mem_iff.1 hb) hab hba

end Merged

end Pass
end Columnar
