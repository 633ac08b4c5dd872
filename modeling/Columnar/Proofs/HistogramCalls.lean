import Columnar.Proofs.Accounting

/-! A histogram is what was told to it, in any order. Each key counts the calls that named it, the
calls without a key are counted apart, and two sequences of calls lead to one histogram exactly if
one is the other in another order. The counts are words: as long as there are fewer than `2 ^ 64`
calls, no count and no sum of counts needs more. -/

namespace Columnar
namespace Histogram

inductive Call
  | increment (key : Int64)
  | incrementInvalid
  deriving DecidableEq

namespace Call

def apply (h : Histogram) : Call → Histogram
  | .increment key => h.increment key.toInt
  | .incrementInvalid => h.incrementInvalid

def bucket : Call → Option Int
  | .increment key => some key.toInt
  | .incrementInvalid => none

theorem apply_eq_record (h : Histogram) (call : Call) : call.apply h = h.record call.bucket := by
  cases call <;> rfl

theorem bucket_injective : Function.Injective bucket := by
  intro a b h
  cases a with
  | increment key =>
    cases b with
    | increment key' => rw [Int64.toInt_inj.1 (Option.some.inj h)]
    | incrementInvalid => cases h
  | incrementInvalid =>
    cases b with
    | increment key' => cases h
    | incrementInvalid => rfl

end Call

def after (calls : List Call) : Histogram := calls.foldl Call.apply empty

theorem after_eq_ofBuckets (calls : List Call) :
    after calls = ofBuckets (calls.map Call.bucket) := by
  rw [after, ofBuckets, List.foldl_map]
  exact congrArg (fun f => calls.foldl f empty) (funext fun h => funext (Call.apply_eq_record h))

theorem count_bucket (calls : List Call) (call : Call) :
    (calls.map Call.bucket).count call.bucket = calls.count call :=
  List.count_map_of_injective calls Call.bucket Call.bucket_injective call

theorem count_after (calls : List Call) (key : Int64) :
    (after calls).count key.toInt = calls.count (.increment key) := by
  rw [after_eq_ofBuckets, count_ofBuckets]
  exact count_bucket calls (.increment key)

theorem invalid_after (calls : List Call) :
    (after calls).invalid = calls.count .incrementInvalid := by
  rw [after_eq_ofBuckets, invalid_ofBuckets]
  exact count_bucket calls .incrementInvalid

theorem total_after (calls : List Call) : (after calls).total = calls.length := by
  rw [after_eq_ofBuckets, total_ofBuckets, List.length_map]

theorem size_after (calls : List Call) :
    (after calls).size = (calls.filterMap Call.bucket).dedup.length := by
  rw [after_eq_ofBuckets, size_ofBuckets, List.filterMap_map]
  rfl

theorem exists_increment_of_count {calls : List Call} {key : Int}
    (h : 0 < (after calls).count key) : ∃ k : Int64, k.toInt = key ∧ .increment k ∈ calls := by
  rw [after_eq_ofBuckets, count_ofBuckets, List.count_pos_iff, List.mem_map] at h
  obtain ⟨call, hcall, hkey⟩ := h
  cases call with
  | increment k => exact ⟨k, Option.some.inj hkey, hcall⟩
  | incrementInvalid => cases hkey

theorem mem_counts_after (calls : List Call) (key : Int) (n : Nat) :
    (key, n) ∈ (after calls).counts ↔
      ∃ k : Int64, k.toInt = key ∧ .increment k ∈ calls ∧ n = calls.count (.increment k) := by
  rw [mem_iff_countOf (after calls).ascending (after calls).positive]
  constructor
  · intro h
    obtain ⟨hn, hcount⟩ := h
    obtain ⟨k, rfl, hk⟩ := exists_increment_of_count (hcount.symm ▸ hn)
    exact ⟨k, rfl, hk, hcount.symm.trans (count_after calls k)⟩
  · intro h
    obtain ⟨k, rfl, hk, rfl⟩ := h
    exact ⟨List.count_pos_iff.2 hk, count_after calls k⟩

theorem isEmpty_after (calls : List Call) :
    (after calls).isEmpty = true ↔ ∀ key, .increment key ∉ calls := by
  rw [isEmpty, List.isEmpty_iff, List.eq_nil_iff_forall_not_mem]
  constructor
  · intro h key hkey
    exact h _ ((mem_counts_after calls _ _).2 ⟨key, rfl, hkey, rfl⟩)
  · intro h e he
    obtain ⟨k, -, hk, -⟩ := (mem_counts_after calls e.1 e.2).1 he
    exact h k hk

theorem after_eq_iff_perm (as bs : List Call) : after as = after bs ↔ as.Perm bs := by
  constructor
  · intro h
    apply List.perm_iff_count.2
    intro call
    cases call with
    | increment key => rw [← count_after, ← count_after, h]
    | incrementInvalid => rw [← invalid_after, ← invalid_after, h]
  · intro h
    rw [after_eq_ofBuckets, after_eq_ofBuckets, ofBuckets_perm (h.map _)]

theorem sumOf_eq_sum (entries : List (Int × Nat)) :
    sumOf entries = (entries.map Prod.snd).sum := by
  induction entries with
  | nil => rfl
  | cons e entries ih => rw [sumOf, List.map_cons, List.sum_cons, ih]

/-- A histogram in words. Its operations have no value where a count would be no word. -/
structure Words where
  counts : List (Int64 × UInt64)
  invalid : UInt64

namespace Words

def countIn (key : Int64) : List (Int64 × UInt64) → Option (List (Int64 × UInt64))
  | [] => some [(key, 1)]
  | (k, n) :: rest =>
    if key < k then some ((key, 1) :: (k, n) :: rest)
    else if key = k then (Guarded.add? n 1).map fun n => (k, n) :: rest
    else (countIn key rest).map fun rest => (k, n) :: rest

def call (w : Words) : Call → Option Words
  | .increment key => (countIn key w.counts).map fun counts => { w with counts := counts }
  | .incrementInvalid => (Guarded.add? w.invalid 1).map fun n => { w with invalid := n }

def after (calls : List Call) : Option Words := calls.foldlM call ⟨[], 0⟩

def total (w : Words) : Option UInt64 := do
  let counted ← (w.counts.map Prod.snd).foldlM Guarded.add? 0
  Guarded.add? counted w.invalid

def entry (e : Int64 × UInt64) : Int × Nat := (e.1.toInt, e.2.toNat)

structure Hold (w : Words) (h : Histogram) : Prop where
  counts : w.counts.map entry = h.counts
  invalid : w.invalid.toNat = h.invalid

theorem toNat_add_one {n : UInt64} (h : n.toNat + 1 < UInt64.size) :
    (n + 1).toNat = n.toNat + 1 := by
  rw [UInt64.toNat_add]
  exact Nat.mod_eq_of_lt h

theorem countIn_eq {key : Int64} {entries : List (Int64 × UInt64)}
    (hfit : ∀ e ∈ entries, e.2.toNat + 1 < UInt64.size) :
    ∃ entries', countIn key entries = some entries' ∧
      entries'.map entry = Columnar.countIn key.toInt (entries.map entry) := by
  induction entries with
  | nil => exact ⟨_, rfl, rfl⟩
  | cons e rest ih =>
    obtain ⟨k, n⟩ := e
    obtain ⟨hn, hrest⟩ := List.forall_mem_cons.1 hfit
    rw [List.map_cons, entry, countIn, Columnar.countIn]
    -- Words are in the order of the numbers that they are, so both lists branch alike.
    simp only [Int64.lt_iff_toInt_lt, ← Int64.toInt_inj]
    split
    · exact ⟨_, rfl, rfl⟩
    · split
      · rw [Guarded.add?_of_lt hn]
        refine ⟨_, rfl, ?_⟩
        rw [List.map_cons, entry, toNat_add_one hn]
      · obtain ⟨rest', hcount, hmap⟩ := ih hrest
        rw [hcount]
        refine ⟨_, rfl, ?_⟩
        rw [List.map_cons, entry, hmap]

theorem Hold.call {w : Words} {h : Histogram} (hw : w.Hold h) (c : Call)
    (hfit : h.total + 1 < UInt64.size) : ∃ w', w.call c = some w' ∧ w'.Hold (c.apply h) := by
  cases c with
  | increment key =>
    have hcounts : ∀ e ∈ w.counts, e.2.toNat + 1 < UInt64.size := by
      intro e he
      have hmem : entry e ∈ h.counts := hw.counts ▸ List.mem_map_of_mem he
      have hle : (entry e).2 ≤ h.total := (le_sumOf hmem).trans (Nat.le_add_right _ _)
      exact (Nat.succ_le_succ hle).trans_lt hfit
    obtain ⟨counts, hcount, hmap⟩ := @countIn_eq key w.counts hcounts
    refine ⟨{ w with counts := counts }, ?_, ?_, hw.invalid⟩
    · rw [Words.call, hcount]
      rfl
    · rw [hmap, hw.counts]
      rfl
  | incrementInvalid =>
    have hinvalid : w.invalid.toNat + 1 < UInt64.size := by
      rw [hw.invalid]
      exact (Nat.succ_le_succ (Nat.le_add_left _ _)).trans_lt hfit
    refine ⟨{ w with invalid := w.invalid + 1 }, ?_, hw.counts, ?_⟩
    · rw [Words.call, Guarded.add?_of_lt hinvalid]
      rfl
    · rw [toNat_add_one hinvalid, hw.invalid]
      rfl

theorem Hold.calls {w : Words} {h : Histogram} (hw : w.Hold h) (calls : List Call)
    (hfit : h.total + calls.length < UInt64.size) :
    ∃ w', calls.foldlM Words.call w = some w' ∧ w'.Hold (calls.foldl Call.apply h) := by
  -- The total bounds every count and grows by one with each call.
  induction calls generalizing w h with
  | nil => exact ⟨w, rfl, hw⟩
  | cons c calls ih =>
    rw [List.length_cons] at hfit
    obtain ⟨w', hcall, hw'⟩ := hw.call c (by omega)
    have htotal : (c.apply h).total = h.total + 1 := by
      rw [Call.apply_eq_record, total_record]
    rw [List.foldlM_cons, hcall]
    exact ih hw' (by omega)

theorem Hold.total_eq {w : Words} {h : Histogram} (hw : w.Hold h)
    (hfit : h.total < UInt64.size) : ∃ n : UInt64, w.total = some n ∧ n.toNat = h.total := by
  have hsum : ((w.counts.map Prod.snd).map UInt64.toNat).sum + w.invalid.toNat = h.total := by
    rw [Histogram.total, sumOf_eq_sum, ← hw.counts, hw.invalid, List.map_map, List.map_map]
    rfl
  have hcounted : (w.counts.map Prod.snd).sum.toNat =
      ((w.counts.map Prod.snd).map UInt64.toNat).sum := toNat_sum (by omega)
  have hfold : (w.counts.map Prod.snd).foldlM Guarded.add? 0 =
      some (0 + (w.counts.map Prod.snd).sum) :=
    Guarded.foldlM_add? (by rw [UInt64.toNat_zero]; omega)
  have hlast : (w.counts.map Prod.snd).sum.toNat + w.invalid.toNat < UInt64.size := by omega
  refine ⟨(w.counts.map Prod.snd).sum + w.invalid, ?_, ?_⟩
  · rw [Words.total, hfold, zero_add]
    exact Guarded.add?_of_lt hlast
  · rw [UInt64.toNat_add, Nat.mod_eq_of_lt hlast]
    omega

end Words

/-- A histogram against the calls that led to it. -/
structure CountsCalls (calls : List Call) (h : Histogram) : Prop where
  count : ∀ key : Int64, h.count key.toInt = calls.count (.increment key)
  invalid : h.invalid = calls.count .incrementInvalid
  ascending : h.counts.Pairwise fun a b => a.1 < b.1
  listed : ∀ key n, (key, n) ∈ h.counts ↔
    ∃ k : Int64, k.toInt = key ∧ .increment k ∈ calls ∧ n = calls.count (.increment k)
  positive : ∀ e ∈ h.counts, e.2 ≠ 0
  size : h.size = h.counts.length ∧ h.size = (calls.filterMap Call.bucket).dedup.length
  isEmpty : h.isEmpty = true ↔ ∀ key, .increment key ∉ calls
  total : h.total = calls.length
  words : ∃ w n, Words.after calls = some w ∧ w.Hold h ∧ w.total = some n ∧ n.toNat = h.total

theorem words_after {calls : List Call} (hfew : calls.length < UInt64.size) :
    ∃ w n, Words.after calls = some w ∧ w.Hold (after calls) ∧ w.total = some n ∧
      n.toNat = (after calls).total := by
  have hempty : Words.Hold ⟨[], 0⟩ empty := ⟨rfl, rfl⟩
  have hzero : empty.total = 0 := rfl
  obtain ⟨w, hafter, hw⟩ := hempty.calls calls (by omega)
  obtain ⟨n, htotal, hn⟩ := hw.total_eq ((total_after calls).trans_lt hfew)
  exact ⟨w, n, hafter, hw, htotal, hn⟩

/-- A histogram says how often it was told what, in words if there were fewer than `2 ^ 64` calls,
and nothing about their order. -/
theorem state_is_calls_in_any_order :
    (∀ calls : List Call, calls.length < UInt64.size → CountsCalls calls (after calls)) ∧
    ∀ as bs : List Call, after as = after bs ↔ as.Perm bs := by
  refine ⟨?_, after_eq_iff_perm⟩
  intro calls hfew
  exact {
    count := count_after calls
    invalid := invalid_after calls
    ascending := (after calls).ascending
    listed := mem_counts_after calls
    positive := fun e he => Nat.ne_of_gt ((after calls).positive e he)
    size := ⟨rfl, size_after calls⟩
    isEmpty := isEmpty_after calls
    total := total_after calls
    words := words_after hfew }

theorem leastKey_in_two_orders :
    let calls : List Call :=
      [.increment 7, .incrementInvalid, .increment Int64.minValue, .increment 7]
    calls.length < UInt64.size ∧ CountsCalls calls (after calls) ∧
      (after calls).counts = [(-2 ^ 63, 1), (7, 2)] ∧ after calls = after calls.reverse := by
  intro calls
  have hfew : calls.length < UInt64.size := by decide
  exact ⟨hfew, state_is_calls_in_any_order.1 calls hfew, by decide,
    (state_is_calls_in_any_order.2 calls calls.reverse).2 (List.reverse_perm calls).symm⟩

end Histogram
end Columnar
