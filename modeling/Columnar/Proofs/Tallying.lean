import Mathlib.Data.List.Dedup
import Mathlib.Data.List.Perm.Basic
import Columnar.Scan.Histogram

/-! A histogram is the function that counts. Recording a row adds one under its key and changes
nothing else, and since keys ascend and no stored count is zero, two histograms with the same
counts are equal. So recording rows in another order gives the same histogram, and after a run of
rows every count is a number of rows. -/

namespace Columnar

def countOf (entries : List (Int × Nat)) (key : Int) : Nat := (entries.lookup key).getD 0

theorem countOf_cons (k : Int) (n : Nat) (rest : List (Int × Nat)) (key : Int) :
    countOf ((k, n) :: rest) key = if key = k then n else countOf rest key := by
  unfold countOf
  by_cases h : key = k
  · subst h
    simp
  · have hb : (key == k) = false := by simpa using h
    rw [List.lookup_cons, hb, if_neg h]

theorem countOf_eq_zero {entries : List (Int × Nat)} {key : Int}
    (h : ∀ e ∈ entries, key < e.1) : countOf entries key = 0 := by
  induction entries with
  | nil => rfl
  | cons e rest ih =>
    obtain ⟨k, n⟩ := e
    obtain ⟨hk, hr⟩ := List.forall_mem_cons.1 h
    have hne : key ≠ k := Int.ne_of_lt hk
    rw [countOf_cons, if_neg hne, ih hr]

theorem countOf_countIn {entries : List (Int × Nat)}
    (h : entries.Pairwise fun a b => a.1 < b.1) (key other : Int) :
    countOf (countIn key entries) other =
      countOf entries other + if key = other then 1 else 0 := by
  induction entries with
  | nil =>
    rw [countIn, countOf_cons]
    simp [countOf, eq_comm]
  | cons e rest ih =>
    obtain ⟨k, n⟩ := e
    obtain ⟨hk, hr⟩ := List.pairwise_cons.1 h
    rw [countIn]
    split
    · rename_i hlt
      -- The new key goes in front, and ascending order says that it was nowhere behind.
      have hzero : countOf ((k, n) :: rest) key = 0 := by
        apply countOf_eq_zero
        intro e he
        rcases List.mem_cons.1 he with rfl | he
        · exact hlt
        · exact Int.lt_trans hlt (hk e he)
      rw [countOf_cons]
      by_cases ho : other = key
      · subst ho
        rw [if_pos rfl, if_pos rfl, hzero]
      · rw [if_neg ho, if_neg (Ne.symm ho)]
        rfl
    · split
      · rename_i hkey
        subst hkey
        simp only [countOf_cons]
        by_cases ho : other = key
        · rw [if_pos ho, if_pos ho, if_pos ho.symm]
        · rw [if_neg ho, if_neg ho, if_neg (Ne.symm ho)]
          rfl
      · rename_i hlt hne
        simp only [countOf_cons, ih hr]
        by_cases ho : other = k
        · have hko : key ≠ other := by
            rw [ho]
            exact hne
          rw [if_pos ho, if_pos ho, if_neg hko]
          rfl
        · rw [if_neg ho, if_neg ho]

theorem mem_keys_iff {entries : List (Int × Nat)} (h : ∀ e ∈ entries, 0 < e.2) (key : Int) :
    key ∈ entries.map Prod.fst ↔ 0 < countOf entries key := by
  induction entries with
  | nil => simp [countOf]
  | cons e rest ih =>
    obtain ⟨k, n⟩ := e
    obtain ⟨hn, hr⟩ := List.forall_mem_cons.1 h
    rw [List.map_cons, List.mem_cons, countOf_cons, ih hr]
    by_cases hk : key = k
    · simpa [hk] using hn
    · simp [hk]

theorem mem_iff_countOf {entries : List (Int × Nat)}
    (ha : entries.Pairwise fun a b => a.1 < b.1) (hp : ∀ e ∈ entries, 0 < e.2) (key : Int)
    (n : Nat) : (key, n) ∈ entries ↔ 0 < n ∧ countOf entries key = n := by
  induction entries with
  | nil =>
    refine iff_of_false List.not_mem_nil ?_
    intro h
    exact Nat.ne_of_lt h.1 h.2
  | cons e rest ih =>
    obtain ⟨k, m⟩ := e
    obtain ⟨hk, ha⟩ := List.pairwise_cons.1 ha
    obtain ⟨hm, hp⟩ := List.forall_mem_cons.1 hp
    rw [List.mem_cons, Prod.mk.injEq, countOf_cons, ih ha hp]
    by_cases hkey : key = k
    · -- The key of the first entry is in no other.
      rw [hkey, if_pos rfl, countOf_eq_zero hk]
      constructor
      · intro h
        rcases h with h | h
        · exact ⟨h.2 ▸ hm, h.2.symm⟩
        · omega
      · intro h
        exact Or.inl ⟨rfl, h.2.symm⟩
    · rw [if_neg hkey]
      exact or_iff_right fun h => hkey h.1

theorem entries_ext {as bs : List (Int × Nat)} (ha : as.Pairwise fun a b => a.1 < b.1)
    (hb : bs.Pairwise fun a b => a.1 < b.1) (pa : ∀ e ∈ as, 0 < e.2) (pb : ∀ e ∈ bs, 0 < e.2)
    (h : ∀ key, countOf as key = countOf bs key) : as = bs := by
  have hkeys : ∀ key, key ∈ as.map Prod.fst ↔ key ∈ bs.map Prod.fst := by
    intro key
    rw [mem_keys_iff pa, mem_keys_iff pb, h]
  induction as generalizing bs with
  | nil =>
    cases bs with
    | nil => rfl
    | cons b bs => simpa using hkeys b.1
  | cons a as ih =>
    cases bs with
    | nil => simpa using hkeys a.1
    | cons b bs =>
      obtain ⟨k, n⟩ := a
      obtain ⟨l, m⟩ := b
      obtain ⟨hka, hra⟩ := List.pairwise_cons.1 ha
      obtain ⟨hkb, hrb⟩ := List.pairwise_cons.1 hb
      obtain ⟨hn, hpa⟩ := List.forall_mem_cons.1 pa
      obtain ⟨hm, hpb⟩ := List.forall_mem_cons.1 pb
      have hk := h k
      have hl := h l
      rw [countOf_cons, countOf_cons, if_pos rfl] at hk hl
      rcases Int.lt_trichotomy k l with hlt | rfl | hlt
      · rw [if_neg (Int.ne_of_lt hlt), countOf_eq_zero fun e he => Int.lt_trans hlt (hkb e he)] at hk
        omega
      · rw [if_pos rfl] at hk
        have htail : ∀ key, countOf as key = countOf bs key := by
          intro key
          by_cases hkey : key = k
          · rw [hkey, countOf_eq_zero hka, countOf_eq_zero hkb]
          · simpa only [countOf_cons, if_neg hkey] using h key
        rw [hk, ih hra hrb hpa hpb htail fun key => by
          rw [mem_keys_iff hpa, mem_keys_iff hpb, htail]]
      · rw [if_neg (Int.ne_of_lt hlt), countOf_eq_zero fun e he => Int.lt_trans hlt (hka e he)] at hl
        omega

theorem sumOf_countIn (key : Int) (entries : List (Int × Nat)) :
    Histogram.sumOf (countIn key entries) = Histogram.sumOf entries + 1 := by
  induction entries with
  | nil => rfl
  | cons e rest ih =>
    obtain ⟨k, n⟩ := e
    rw [countIn]
    split
    · simp only [Histogram.sumOf]
      omega
    · split
      · simp only [Histogram.sumOf]
        omega
      · simp only [Histogram.sumOf, ih]
        omega

namespace Histogram

theorem count_record (h : Histogram) (bucket : Option Int) (key : Int) :
    (h.record bucket).count key = h.count key + if bucket = some key then 1 else 0 := by
  cases bucket with
  | none => rfl
  | some k =>
    simp only [Option.some.injEq]
    exact countOf_countIn h.ascending k key

theorem invalid_record (h : Histogram) (bucket : Option Int) :
    (h.record bucket).invalid = h.invalid + if bucket = none then 1 else 0 := by
  cases bucket <;> rfl

theorem total_record (h : Histogram) (bucket : Option Int) :
    (h.record bucket).total = h.total + 1 := by
  cases bucket with
  | none => rfl
  | some k =>
    change sumOf (countIn k h.counts) + h.invalid = _
    rw [sumOf_countIn, total]
    omega

theorem ext_count {h k : Histogram} (hc : ∀ key, h.count key = k.count key)
    (hi : h.invalid = k.invalid) : h = k := by
  obtain ⟨cs, i, ha, hp⟩ := h
  obtain ⟨ds, j, ka, kp⟩ := k
  obtain rfl : cs = ds := entries_ext ha ka hp kp hc
  obtain rfl : i = j := hi
  rfl

instance : RightCommutative record where
  right_comm h a b := by
    apply ext_count
    · intro key
      simp only [count_record]
      omega
    · simp only [invalid_record]
      omega

def ofBuckets (buckets : List (Option Int)) : Histogram := buckets.foldl record empty

theorem ofBuckets_perm {as bs : List (Option Int)} (h : as.Perm bs) :
    ofBuckets as = ofBuckets bs :=
  h.foldl_eq _

theorem count_foldl_record (buckets : List (Option Int)) (h : Histogram) (key : Int) :
    (buckets.foldl record h).count key = h.count key + buckets.count (some key) := by
  induction buckets generalizing h with
  | nil => rfl
  | cons b buckets ih =>
    rw [List.foldl_cons, ih, count_record, List.count_cons]
    simp only [beq_iff_eq]
    omega

theorem invalid_foldl_record (buckets : List (Option Int)) (h : Histogram) :
    (buckets.foldl record h).invalid = h.invalid + buckets.count none := by
  induction buckets generalizing h with
  | nil => rfl
  | cons b buckets ih =>
    rw [List.foldl_cons, ih, invalid_record, List.count_cons]
    simp only [beq_iff_eq]
    omega

theorem total_foldl_record (buckets : List (Option Int)) (h : Histogram) :
    (buckets.foldl record h).total = h.total + buckets.length := by
  induction buckets generalizing h with
  | nil => rfl
  | cons b buckets ih =>
    rw [List.foldl_cons, ih, total_record, List.length_cons]
    omega

theorem count_ofBuckets (buckets : List (Option Int)) (key : Int) :
    (ofBuckets buckets).count key = buckets.count (some key) := by
  rw [ofBuckets, count_foldl_record]
  exact Nat.zero_add _

theorem invalid_ofBuckets (buckets : List (Option Int)) :
    (ofBuckets buckets).invalid = buckets.count none := by
  rw [ofBuckets, invalid_foldl_record]
  exact Nat.zero_add _

theorem total_ofBuckets (buckets : List (Option Int)) :
    (ofBuckets buckets).total = buckets.length := by
  rw [ofBuckets, total_foldl_record]
  exact Nat.zero_add _

theorem nodup_keys (h : Histogram) : (h.counts.map Prod.fst).Nodup := by
  rw [List.Nodup, List.pairwise_map]
  exact h.ascending.imp fun hlt => Int.ne_of_lt hlt

theorem size_ofBuckets (buckets : List (Option Int)) :
    (ofBuckets buckets).size = (buckets.filterMap id).dedup.length := by
  have hperm : ((ofBuckets buckets).counts.map Prod.fst).Perm (buckets.filterMap id).dedup := by
    refine (List.perm_ext_iff_of_nodup (nodup_keys _) (List.nodup_dedup _)).2 fun key => ?_
    rw [mem_keys_iff (ofBuckets buckets).positive, List.mem_dedup, List.mem_filterMap]
    have hc : countOf (ofBuckets buckets).counts key = buckets.count (some key) :=
      count_ofBuckets buckets key
    rw [hc, List.count_pos_iff]
    simp
  rw [size, ← hperm.length_eq, List.length_map]

end Histogram
end Columnar
