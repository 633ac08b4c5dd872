import Columnar.Proofs.WholeDoubles
import Columnar.Scan.MemoryTable
import Columnar.Scan.Pass

/-! The keys of the buckets. A magnitude is not below zero, and its quotient by a width is finite,
since a width is one or more. So the number of steps is a whole number that is not negative; a key
exists if the number of steps and its product with the width are 64-bit signed integers, and then it
is that product. A pass counts rows under such keys only. -/

open Float.Model Float.Model.UnpackedFloat

namespace Columnar

theorem magnitude_nonNeg (x y z : Binary64) : (magnitude x y z).NonNeg :=
  Binary64.nonNeg_sqrt _

namespace BucketWidth

variable (w : BucketWidth)

theorem unpacked_value : ∃ m e h, (Binary64.ofUInt64 w.value).unpacked = .finite .positive m e h ∧
    2 ^ 52 ≤ m ∧ m < 2 ^ 53 ∧ (-51 ≤ e ∨ m = 2 ^ 52 ∧ e = -52) := by
  have hof : Binary64.ofUInt64 w.value =
      .ofUnpacked (UnpackedFloat.ofNat .binary64 w.value.toNat) := rfl
  have hlog : w.value.toNat.log2 < 63 := (Nat.log2_lt w.positive.ne').2 w.fits
  obtain ⟨m, e, h, heq, hm, hlt, hlo, hhi⟩ := Binary64.ofNat_full w.positive
  rw [hof, heq, Binary64.unpacked_ofUnpacked ⟨hlt, by omega, by omega, .inl hm⟩]
  refine ⟨m, e, h, rfl, hm, hlt, ?_⟩
  by_cases hone : w.value.toNat = 1
  · obtain ⟨h1, heq1⟩ := Binary64.ofNat_of_lt (n := 1) (by decide) (by decide)
    rw [hone, heq1] at heq
    injection heq with _ hm1 he1
    exact .inr ⟨hm1.symm, he1.symm⟩
  · have hpos : 1 ≤ w.value.toNat.log2 := by
      rw [Nat.le_log2 w.positive.ne']
      have := w.positive
      omega
    exact .inl (by omega)

theorem quotient_eq (magnitude : Binary64) : w.quotient magnitude =
    .ofUnpacked (UnpackedFloat.div .binary64 magnitude.unpacked
      (Binary64.ofUInt64 w.value).unpacked) := by
  rw [← Binary64.unpack_toFloat magnitude]
  rfl

theorem quotient_finite {magnitude : Binary64} (hf : magnitude.isFinite = true)
    (hn : magnitude.NonNeg) :
    (w.quotient magnitude).isFinite = true ∧ (w.quotient magnitude).NonNeg := by
  obtain ⟨m', e', h', hw, hm', hlt', he'⟩ := w.unpacked_value
  rw [quotient_eq, hw]
  rcases hn.unpacked hf with ⟨s, hu⟩ | ⟨m, e, hm, hu⟩
  · rw [hu]
    exact ⟨Binary64.isFinite_of_bounded (s := s / .positive) (.inl rfl), Binary64.nonNeg_zero _⟩
  · rw [hu]
    obtain ⟨-, -, -, hfits⟩ := Binary64.of_unpacked_finite hu
    refine ⟨?_, Binary64.nonNeg_roundWithAccuracy _ _ _⟩
    apply Binary64.isFinite_of_bounded (s := .positive / .positive)
    have hlog : m.log2 < 53 := (Nat.log2_lt hm.ne').2 hfits.lt
    have hle := hfits.le
    -- Only the greatest doubles over one leave no room for a carry.
    by_cases hsmall : m.log2 + 1 + e - (53 + e') ≤ 1022
    · exact Binary64.div_bounded_of_small hm' hlt' hsmall
    · obtain ⟨rfl, rfl⟩ : m' = 2 ^ 52 ∧ e' = -52 := by omega
      obtain rfl : e = 971 := by omega
      exact Binary64.div_one_bounded (hfits.full.resolve_right (by decide)) hfits.lt _

theorem le_mul_value {n : Int} (hn : 0 ≤ n) : n ≤ n * w.value.toNat :=
  le_mul_of_one_le_right hn (by exact_mod_cast w.positive)

theorem toInt_value : w.value.toInt64.toInt = w.value.toNat := by
  have hfits := w.fits
  show w.value.toBitVec.toInt = _
  rw [BitVec.toInt_eq_toNat_of_lt]
  · rfl
  · show 2 * w.value.toNat < 2 ^ 64
    omega

end BucketWidth

theorem smulOverflow_eq_false_iff (a b : Int64) :
    a.toBitVec.smulOverflow b.toBitVec = false ↔
      -2 ^ 63 ≤ a.toInt * b.toInt ∧ a.toInt * b.toInt < 2 ^ 63 := by
  show _ ↔ -2 ^ 63 ≤ a.toBitVec.toInt * b.toBitVec.toInt ∧ _
  simp [BitVec.smulOverflow]
  exact and_comm

theorem toInt_mul_of_fits {a b : Int64}
    (h : -2 ^ 63 ≤ a.toInt * b.toInt ∧ a.toInt * b.toInt < 2 ^ 63) :
    (a * b).toInt = a.toInt * b.toInt :=
  BitVec.toInt_mul_of_not_smulOverflow (by simp [(smulOverflow_eq_false_iff a b).2 h])

theorem checkedMul_eq (a b : Int64) : (checkedMul a b).map Int64.toInt =
    if -2 ^ 63 ≤ a.toInt * b.toInt ∧ a.toInt * b.toInt < 2 ^ 63 then some (a.toInt * b.toInt)
    else none := by
  by_cases h : -2 ^ 63 ≤ a.toInt * b.toInt ∧ a.toInt * b.toInt < 2 ^ 63
  · have hkept := (smulOverflow_eq_false_iff a b).2 h
    rw [checkedMul, if_neg (by simp [hkept]), if_pos h]
    exact congrArg some (toInt_mul_of_fits h)
  · have hover := mt (smulOverflow_eq_false_iff a b).1 h
    rw [checkedMul, if_pos (by simpa using hover), if_neg h]
    rfl

namespace BucketWidth

variable (w : BucketWidth)

/-- A multiple of the width among the 64-bit signed integers that are not negative. -/
def Key (key : Int) : Prop := 0 ≤ key ∧ key < 2 ^ 63 ∧ (w.value.toNat : Int) ∣ key

def Keys (h : Histogram) : Prop := ∀ e ∈ h.counts, w.Key e.1

theorem toInt_steps {magnitude : Binary64} (hf : magnitude.isFinite = true)
    (hn : magnitude.NonNeg) (hlt : (w.quotient magnitude).round < 2 ^ 63) :
    (w.quotient magnitude).rounded.toInt64.toInt = (w.quotient magnitude).round := by
  obtain ⟨hqf, hqn⟩ := w.quotient_finite hf hn
  have hpos := Binary64.round_nonneg hqn
  rw [Binary64.toInt64_of_whole (Binary64.rounded_whole hqf)]
  apply Int64.toInt_ofIntClamp
  · exact hpos.trans' (by decide)
  · exact Int.le_of_lt_add_one hlt

theorem keyOf_eq {magnitude : Binary64} (hf : magnitude.isFinite = true) (hn : magnitude.NonNeg) :
    w.keyOf magnitude =
      if 2 ^ 63 ≤ (w.quotient magnitude).round * w.value.toNat then none
      else some ((w.quotient magnitude).round * w.value.toNat) := by
  obtain ⟨hqf, hqn⟩ := w.quotient_finite hf hn
  have hpos := Binary64.round_nonneg hqn
  have hwhole := Binary64.rounded_whole hqf
  have hstepsNonNeg := Binary64.nonNeg_of_whole hwhole hpos
  have hprod := w.le_mul_value hpos
  have hlow := Binary64.not_lt_lowestInt64 hstepsNonNeg hwhole.1
  have hhigh := Binary64.highestInt64_le_iff hstepsNonNeg hwhole
  -- The bounds keep out what the cast would cut off, and more, since the width is one or more.
  simp only [keyOf, hf, Bool.not_true, Bool.false_eq_true, if_false, hlow, false_or, hhigh]
  by_cases hsteps : 2 ^ 63 ≤ (w.quotient magnitude).round
  · rw [if_pos hsteps, if_pos (hsteps.trans hprod)]
  · rw [if_neg hsteps, checkedMul_eq, w.toInt_steps hf hn (Int.not_le.1 hsteps), w.toInt_value]
    by_cases hkey : 2 ^ 63 ≤ (w.quotient magnitude).round * w.value.toNat
    · rw [if_neg (by omega), if_pos hkey]
    · rw [if_pos (by omega), if_neg hkey]

theorem bucket_of_not_finite {x y z : Binary64} (h : ¬(magnitude x y z).isFinite = true) :
    w.bucket x y z = none := by
  rw [bucket, keyOf, if_pos (by simpa using h)]

theorem bucket_eq_some {x y z : Binary64} {key : Int} (h : w.bucket x y z = some key) :
    (magnitude x y z).isFinite = true ∧
      key = (w.quotient (magnitude x y z)).round * w.value.toNat ∧ key < 2 ^ 63 := by
  by_cases hf : (magnitude x y z).isFinite = true
  · rw [bucket, w.keyOf_eq hf (magnitude_nonNeg x y z)] at h
    split at h
    · cases h
    · rename_i hkey
      obtain rfl := Option.some.inj h
      exact ⟨hf, rfl, Int.not_le.1 hkey⟩
  · rw [w.bucket_of_not_finite hf] at h
    cases h

theorem bucket_eq_none_iff (x y z : Binary64) : w.bucket x y z = none ↔
    ¬(magnitude x y z).isFinite = true ∨ 2 ^ 63 ≤ (w.quotient (magnitude x y z)).round ∨
      2 ^ 63 ≤ (w.quotient (magnitude x y z)).round * w.value.toNat := by
  by_cases hf : (magnitude x y z).isFinite = true
  · have hnonNeg := magnitude_nonNeg x y z
    have hpos := Binary64.round_nonneg (w.quotient_finite hf hnonNeg).2
    have hprod := w.le_mul_value hpos
    rw [bucket, w.keyOf_eq hf hnonNeg]
    simp only [ite_eq_left_iff, reduceCtorEq, imp_false, not_not, hf, not_true_eq_false, false_or]
    omega
  · exact iff_of_true (w.bucket_of_not_finite hf) (.inl hf)

theorem round_lt_of_bucket {x y z : Binary64} {key : Int} (h : w.bucket x y z = some key) :
    (w.quotient (magnitude x y z)).round < 2 ^ 63 := by
  by_contra hge
  have hnone := (w.bucket_eq_none_iff x y z).2 (.inr (.inl (Int.not_lt.1 hge)))
  rw [h] at hnone
  cases hnone

theorem key_of_bucket {x y z : Binary64} {key : Int} (h : w.bucket x y z = some key) :
    w.Key key := by
  obtain ⟨hf, rfl, hlt⟩ := w.bucket_eq_some h
  have hpos := Binary64.round_nonneg (w.quotient_finite hf (magnitude_nonNeg x y z)).2
  exact ⟨Int.mul_nonneg hpos (Int.natCast_nonneg _), hlt, Int.dvd_mul_left _ _⟩

end BucketWidth

namespace Pass

section Keys

variable {σ η : Type} [ColumnSource σ η] (source : σ) {width : BucketWidth}

theorem keys_record {h : Histogram} (hh : width.Keys h) (x y z : Binary64) :
    width.Keys (h.record (width.bucket x y z)) := by
  intro e he
  cases hb : width.bucket x y z with
  | none =>
    rw [hb] at he
    exact hh e he
  | some key =>
    rw [hb] at he
    rcases fst_of_mem_countIn he with heq | hmem
    · rw [heq]
      exact width.key_of_bucket hb
    · obtain ⟨e', he', heq⟩ := List.mem_map.1 hmem
      rw [← heq]
      exact hh e' he'

theorem keys_row {s : State η} (hs : width.Keys s.histogram) (i : Nat) :
    width.Keys (row source width i s).2.histogram := by
  simp only [row]
  split
  · exact hs
  · split
    · exact hs
    · split
      · exact hs
      · exact keys_record hs _ _ _

theorem keys_rows {s : State η} (hs : width.Keys s.histogram) (i count : Nat) :
    width.Keys (rows source width i count s).2.histogram := by
  induction count generalizing i s with
  | zero => exact hs
  | succ count ih =>
    have hrow := keys_row source hs i
    simp only [rows]
    rcases hr : row source width i s with ⟨e | u, s'⟩
    · rw [hr] at hrow
      exact hrow
    · rw [hr] at hrow
      exact ih hrow (i + 1)

theorem keys_run {options : ScanOptions} {scratch : Scratch} {tally : Tally}
    (h : (run source options scratch).result = .ok tally) : options.width.Keys tally.histogram := by
  simp only [run] at h
  split at h
  · cases h
  · rename_i handles _
    generalize ColumnSource.rowCount source = count at h
    have hempty : options.width.Keys (State.initial handles count scratch).histogram := nofun
    have hkeys := keys_rows source hempty 0 count
    rcases hr : rows source options.width 0 count (.initial handles count scratch) with ⟨e | u, s⟩
    · rw [hr] at h
      cases h
    · rw [hr] at h hkeys
      obtain rfl := Except.ok.inj h
      exact hkeys

end Keys

end Pass

namespace BucketWidth

/-- Keys are exact: the number of steps is the rounded quotient, the cast keeps it, and the product
does not leave the 64-bit signed integers; where one of the two would, there is no key. So every
histogram of a pass has multiples of the width for its keys, none of them negative. -/
theorem keys_exact (value : UInt64) (w : BucketWidth) (hw : ofUInt64? value = some w) :
    (∀ x y z : Binary64,
      let m := magnitude x y z
      let q := w.quotient m
      (m.isFinite = true → q.rounded.Whole q.round ∧ 0 ≤ q.round) ∧
        (∀ key, w.bucket x y z = some key →
          0 ≤ key ∧ key < 2 ^ 63 ∧ (value.toNat : Int) ∣ key ∧ key = q.round * value.toNat ∧
            q.rounded.toInt64.toInt = q.round ∧
              (q.rounded.toInt64 * value.toInt64).toInt = key) ∧
        (w.bucket x y z = none ↔
          ¬m.isFinite = true ∨ 2 ^ 63 ≤ q.round ∨ 2 ^ 63 ≤ q.round * value.toNat)) ∧
    ∀ (σ η : Type) [ColumnSource σ η] (source : σ) (options : ScanOptions) (scratch : Scratch)
      (tally : Pass.Tally), options.width = w →
      (Pass.run source options scratch).result = .ok tally →
        ∀ e ∈ tally.histogram.counts, 0 ≤ e.1 ∧ e.1 < 2 ^ 63 ∧ (value.toNat : Int) ∣ e.1 := by
  obtain rfl : w.value = value := by
    unfold ofUInt64? at hw
    split at hw
    · rw [← Option.some.inj hw]
    · cases hw
  refine ⟨?_, ?_⟩
  · intro x y z
    have hnonNeg := magnitude_nonNeg x y z
    refine ⟨?_, ?_, w.bucket_eq_none_iff x y z⟩
    · intro hf
      obtain ⟨hqf, hqn⟩ := w.quotient_finite hf hnonNeg
      exact ⟨Binary64.rounded_whole hqf, Binary64.round_nonneg hqn⟩
    · intro key hkey
      obtain ⟨hpos, hlt, hdvd⟩ := w.key_of_bucket hkey
      obtain ⟨hf, heq, -⟩ := w.bucket_eq_some hkey
      have hsteps := w.toInt_steps hf hnonNeg (w.round_lt_of_bucket hkey)
      refine ⟨hpos, hlt, hdvd, heq, hsteps, ?_⟩
      have hfits : -2 ^ 63 ≤ key ∧ key < 2 ^ 63 := ⟨by omega, hlt⟩
      rw [heq, ← hsteps, ← w.toInt_value] at hfits ⊢
      exact toInt_mul_of_fits hfits
  · rintro σ η _ source options scratch tally rfl hrun
    exact Pass.keys_run source hrun

def widest : BucketWidth := ⟨0x7fffffffffffffff, by decide, by decide⟩

def twoTo63 : Binary64 := ⟨0x43e0000000000000⟩
def twoTo64 : Binary64 := ⟨0x43f0000000000000⟩
def infinite : Binary64 := ⟨0x7ff0000000000000⟩

def farRows : MemoryTable :=
  ⟨3, [("x", .floats #[twoTo63, twoTo64, infinite]), ("y", .floats #[⟨0⟩, ⟨0⟩, ⟨0⟩])]⟩

theorem widest_keys : ofUInt64? 0x7fffffffffffffff = some widest ∧
    widest.bucket twoTo63 ⟨0⟩ ⟨0⟩ = some 0x7fffffffffffffff ∧
    (widest.quotient (magnitude twoTo63 ⟨0⟩ ⟨0⟩)).rounded.toInt64.toInt = 1 ∧
    widest.bucket twoTo64 ⟨0⟩ ⟨0⟩ = none ∧
    ∃ tally, (Pass.run farRows ⟨"x", "y", "y", widest⟩ .empty).result = .ok tally ∧
      tally.histogram.counts = [(0x7fffffffffffffff, 1)] ∧ tally.histogram.invalid = 2 ∧
      ∀ e ∈ tally.histogram.counts, 0 ≤ e.1 ∧ e.1 < 2 ^ 63 ∧
        ((0x7fffffffffffffff : UInt64).toNat : Int) ∣ e.1 := by
  have haccepted : ofUInt64? 0x7fffffffffffffff = some widest := by decide
  obtain ⟨hkeys, hpass⟩ := keys_exact 0x7fffffffffffffff widest haccepted
  have hbucket : widest.bucket twoTo63 ⟨0⟩ ⟨0⟩ = some 0x7fffffffffffffff := by decide +kernel
  have hone : (widest.quotient (magnitude twoTo63 ⟨0⟩ ⟨0⟩)).round = 1 := by decide +kernel
  have htwo : (widest.quotient (magnitude twoTo64 ⟨0⟩ ⟨0⟩)).round = 2 := by decide +kernel
  obtain ⟨-, -, -, -, hcast, -⟩ := (hkeys twoTo63 ⟨0⟩ ⟨0⟩).2.1 _ hbucket
  have hnone := (hkeys twoTo64 ⟨0⟩ ⟨0⟩).2.2.2 (.inr (.inr (by rw [htwo]; decide)))
  have hcounts : (Pass.run farRows ⟨"x", "y", "y", widest⟩ .empty).result.toOption.map
      (fun tally => (tally.histogram.counts, tally.histogram.invalid)) =
        some ([(0x7fffffffffffffff, 1)], 2) := by
    decide +kernel
  cases hrun : (Pass.run farRows ⟨"x", "y", "y", widest⟩ .empty).result with
  | error e =>
    rw [hrun] at hcounts
    cases hcounts
  | ok tally =>
    rw [hrun] at hcounts
    obtain ⟨hlisted, hinvalid⟩ := Prod.mk.inj (Option.some.inj hcounts)
    have hlawful := hpass MemoryTable Nat farRows ⟨"x", "y", "y", widest⟩ .empty tally rfl hrun
    exact ⟨haccepted, hbucket, hcast.trans hone, hnone, tally, rfl, hlisted, hinvalid, hlawful⟩

end BucketWidth
end Columnar
