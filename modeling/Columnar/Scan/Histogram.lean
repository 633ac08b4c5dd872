/-! Rows counted by bucket key. The keys ascend and every listed count is positive, so a histogram is
determined by its counts; rows without a bucket are counted apart. -/

namespace Columnar

def countIn (key : Int) : List (Int × Nat) → List (Int × Nat)
  | [] => [(key, 1)]
  | (k, n) :: rest =>
    if key < k then (key, 1) :: (k, n) :: rest
    else if key = k then (k, n + 1) :: rest
    else (k, n) :: countIn key rest

theorem fst_of_mem_countIn {key : Int} {e : Int × Nat} {entries : List (Int × Nat)}
    (h : e ∈ countIn key entries) : e.1 = key ∨ e.1 ∈ entries.map Prod.fst := by
  induction entries with
  | nil => simp [countIn] at h; exact Or.inl (by simp [h])
  | cons p rest ih =>
    obtain ⟨k, n⟩ := p
    rw [countIn] at h
    split at h
    · rcases List.mem_cons.1 h with rfl | h
      · exact Or.inl rfl
      · exact Or.inr (List.mem_map_of_mem h)
    · split at h
      · rename_i hk
        rcases List.mem_cons.1 h with rfl | h
        · exact Or.inl hk.symm
        · exact Or.inr (List.mem_map_of_mem (List.mem_cons_of_mem _ h))
      · rcases List.mem_cons.1 h with rfl | h
        · exact Or.inr (by simp)
        · rcases ih h with h | h
          · exact Or.inl h
          · exact Or.inr (List.mem_cons_of_mem _ h)

theorem countIn_ascending {key : Int} {entries : List (Int × Nat)}
    (h : entries.Pairwise fun a b => a.1 < b.1) :
    (countIn key entries).Pairwise fun a b => a.1 < b.1 := by
  induction entries with
  | nil => simp [countIn]
  | cons p rest ih =>
    obtain ⟨k, n⟩ := p
    obtain ⟨hk, hr⟩ := List.pairwise_cons.1 h
    rw [countIn]
    split
    · rename_i hlt
      refine List.pairwise_cons.2 ⟨fun e he => ?_, h⟩
      rcases List.mem_cons.1 he with rfl | he
      · exact hlt
      · exact Int.lt_trans hlt (hk e he)
    · split
      · exact List.pairwise_cons.2 ⟨hk, hr⟩
      · rename_i hlt hne
        refine List.pairwise_cons.2 ⟨fun e he => ?_, ih hr⟩
        rcases fst_of_mem_countIn he with h | h
        · rw [h]; show k < key; omega
        · obtain ⟨e', he', heq⟩ := List.mem_map.1 h
          rw [← heq]
          exact hk e' he'

theorem countIn_positive {key : Int} {entries : List (Int × Nat)}
    (h : ∀ e ∈ entries, 0 < e.2) : ∀ e ∈ countIn key entries, 0 < e.2 := by
  induction entries with
  | nil => simp [countIn]
  | cons p rest ih =>
    obtain ⟨k, n⟩ := p
    obtain ⟨hp, hr⟩ := List.forall_mem_cons.1 h
    intro e he
    rw [countIn] at he
    split at he
    · rcases List.mem_cons.1 he with rfl | he
      · exact Nat.one_pos
      · exact h e he
    · split at he
      · rcases List.mem_cons.1 he with rfl | he
        · exact Nat.succ_pos n
        · exact hr e he
      · rcases List.mem_cons.1 he with rfl | he
        · exact hp
        · exact ih hr e he

structure Histogram where
  counts : List (Int × Nat)
  invalid : Nat
  ascending : counts.Pairwise fun a b => a.1 < b.1
  positive : ∀ e ∈ counts, 0 < e.2
  deriving DecidableEq

namespace Histogram

def empty : Histogram := ⟨[], 0, .nil, by simp⟩

def increment (h : Histogram) (key : Int) : Histogram :=
  ⟨countIn key h.counts, h.invalid, countIn_ascending h.ascending, countIn_positive h.positive⟩

def incrementInvalid (h : Histogram) : Histogram := { h with invalid := h.invalid + 1 }

def record (h : Histogram) : Option Int → Histogram
  | some key => h.increment key
  | none => h.incrementInvalid

def count (h : Histogram) (key : Int) : Nat := (h.counts.lookup key).getD 0

def size (h : Histogram) : Nat := h.counts.length

def isEmpty (h : Histogram) : Bool := h.counts.isEmpty

def sumOf : List (Int × Nat) → Nat
  | [] => 0
  | e :: counts => e.2 + sumOf counts

def total (h : Histogram) : Nat := sumOf h.counts + h.invalid

end Histogram
end Columnar
