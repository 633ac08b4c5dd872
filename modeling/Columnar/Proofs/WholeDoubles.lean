import Columnar.Proofs.Rounding

/-! Doubles that are whole numbers. The nearest whole number of a double is a double, and the bounds
of the 64-bit signed integers compare with it as they do as numbers, although the upper one is
rounded up; so whatever passes them is cast to the number that it is. -/

open Float.Model Float.Model.UnpackedFloat

namespace Columnar.Binary64

def NonNeg (x : Binary64) : Prop := x.isNegative = true → x.significand = 0

/-- `x` is the whole number `n`. -/
def Whole (x : Binary64) (n : Int) : Prop :=
  x.isFinite = true ∧ x.sign.apply x.numerator = n * x.denominator

variable {x : Binary64} {s : Sign} {u : UnpackedFloat} {m : Nat} {e : Int} {hm : 0 < m}

theorem sign_of_nonNeg (h : x.NonNeg) (hsig : x.significand ≠ 0) : x.sign = .positive :=
  if_neg (mt h hsig)

theorem nonNeg_of_sign (h : x.sign = .positive) : x.NonNeg := by
  intro hneg
  rw [sign, if_pos hneg] at h
  cases h

theorem isFinite_of_bounded (h : Bounded s u) : (ofUnpacked u).isFinite = true := by
  rcases h with rfl | ⟨m, e, h, rfl, he⟩
  · cases s <;> rfl
  · exact isFinite_ofUnpacked_finite he

theorem nonNeg_zero (s : Sign) : (ofUnpacked (.zero s)).NonNeg :=
  fun _ => (of_unpacked_zero (ofUnpacked_zero s)).2

theorem nonNeg_finite : (ofUnpacked (.finite .positive m e hm)).NonNeg :=
  nonNeg_of_sign (ofUnpacked_finite .positive hm).1

theorem nonNeg_roundWithAccuracy (m : Nat) (e : Int) (acc : Accuracy) :
    (ofUnpacked (roundWithAccuracy .binary64 .positive m e acc)).NonNeg := by
  rcases roundWithAccuracy_cases .positive m e acc with h | ⟨m', e', h', h⟩ <;> rw [h]
  · exact nonNeg_zero .positive
  · exact nonNeg_finite

theorem nonNeg_sqrt (u : UnpackedFloat) :
    (ofUnpacked (UnpackedFloat.sqrt .binary64 u)).NonNeg := by
  cases u with
  | notANumber => exact nonNeg_of_sign rfl
  | infinity s => cases s <;> exact nonNeg_of_sign rfl
  | zero s => exact nonNeg_zero s
  | finite s m e hm =>
    cases s with
    | negative => exact show (ofUnpacked .notANumber).NonNeg from nonNeg_of_sign rfl
    | positive => exact nonNeg_roundWithAccuracy _ _ _

theorem NonNeg.unpacked (h : x.NonNeg) (hf : x.isFinite = true) :
    (∃ s, x.unpacked = .zero s) ∨ ∃ m e hm, x.unpacked = .finite .positive m e hm := by
  rw [isFinite_eq_unpacked] at hf
  cases hu : x.unpacked with
  | notANumber => rw [hu] at hf; cases hf
  | infinity s => rw [hu] at hf; cases hf
  | zero s => exact .inl ⟨s, rfl⟩
  | finite s m e hm =>
    obtain ⟨hs, hsig, -, -⟩ := of_unpacked_finite hu
    obtain rfl : s = .positive := hs ▸ sign_of_nonNeg h (by omega)
    exact .inr ⟨m, e, hm, rfl⟩

theorem round_nonneg (h : x.NonNeg) : 0 ≤ x.round := by
  unfold round
  by_cases hneg : x.isNegative = true
  · have hzero : x.numerator = 0 := by rw [numerator, h hneg, Nat.zero_mul]
    have hpos := x.denominator_pos
    rw [if_pos hneg, hzero, Nat.div_eq_of_lt (by omega)]
    rfl
  · rw [if_neg hneg]
    exact Int.natCast_nonneg _

theorem whole_of_zero (h : x.unpacked = .zero s) : x.Whole 0 := by
  obtain ⟨-, hsig⟩ := of_unpacked_zero h
  have hf : x.isFinite = true := by rw [isFinite_eq_unpacked, h]; rfl
  refine ⟨hf, ?_⟩
  rw [numerator, hsig, Nat.zero_mul, Int.zero_mul]
  cases x.sign <;> rfl

theorem whole_of_shifted {n k : Nat} {h : 0 < n <<< k}
    (hu : x.unpacked = .finite s (n <<< k) (-k : Int) h) : x.Whole (s.apply n) := by
  obtain ⟨hs, -⟩ := of_unpacked_finite hu
  obtain ⟨hnum, hden⟩ := quotient_of_unpacked hu
  have hf : x.isFinite = true := by rw [isFinite_eq_unpacked, hu]; rfl
  refine ⟨hf, ?_⟩
  rw [hs, hnum, hden, Nat.shiftLeft_eq]
  cases s <;> simp [Sign.apply]

theorem unpacked_toFloat_ofNat {n : Nat} (hn : 0 < n) (hlt : n < 2 ^ 53) :
    ∃ h, (ofFloat (UInt64.ofNat n).toFloat).unpacked =
      .finite .positive (n <<< (52 - n.log2)) (-(52 - n.log2 : Nat)) h := by
  have heq : ofFloat (UInt64.ofNat n).toFloat =
      ofUnpacked (UnpackedFloat.ofNat .binary64 (UInt64.ofNat n).toNat) := rfl
  have hsize : (UInt64.ofNat n).toNat = n := by
    rw [UInt64.toNat_ofNat']
    omega
  have hlog : n.log2 < 53 := (Nat.log2_lt hn.ne').2 hlt
  obtain ⟨h, hof⟩ := ofNat_of_lt hn hlt
  have hlog' := log2_shiftLeft hn (52 - n.log2)
  have hfits : Fits (n <<< (52 - n.log2)) (-(52 - n.log2 : Nat)) :=
    ⟨(Nat.log2_lt h.ne').1 (by omega), by omega, by omega,
      .inl ((Nat.le_log2 h.ne').1 (by omega))⟩
  exact ⟨h, by rw [heq, hsize, hof, unpacked_ofUnpacked hfits]⟩

theorem whole_toFloat {n : Nat} (hlt : n < 2 ^ 53) :
    (ofFloat (UInt64.ofNat n).toFloat).Whole n ∧
      (ofFloat (-(UInt64.ofNat n).toFloat)).Whole (-n) := by
  rcases Nat.eq_zero_or_pos n with rfl | hn
  · exact ⟨whole_of_zero (s := .positive) rfl, whole_of_zero (s := .negative) rfl⟩
  · obtain ⟨h, hu⟩ := unpacked_toFloat_ofNat hn hlt
    have hneg := unpacked_neg (UInt64.ofNat n).toFloat
    rw [hu] at hneg
    exact ⟨whole_of_shifted hu, whole_of_shifted hneg⟩

theorem round_eq (x : Binary64) :
    x.round = x.sign.apply ((2 * x.numerator + x.denominator) / (2 * x.denominator) : Nat) := by
  rw [round, sign]
  split <;> rfl

theorem natAbs_apply (s : Sign) (n : Nat) : (s.apply n).natAbs = n := by
  cases s <;> simp [Sign.apply]

theorem natAbs_round (x : Binary64) :
    x.round.natAbs = (2 * x.numerator + x.denominator) / (2 * x.denominator) := by
  rw [round_eq, natAbs_apply]

theorem natAbs_round_lt (h : x.exponentField < 1075) : x.round.natAbs < 2 ^ 53 := by
  have hnum : x.numerator = x.significand := by
    rw [numerator, exponent, show x.exponentField - 1 - 1074 = 0 by omega]
    exact Nat.mul_one _
  have hsig := x.significand_lt
  have hden := x.denominator_pos
  rw [natAbs_round, Nat.div_lt_iff_lt_mul (by omega)]
  omega

theorem rounded_whole (hf : x.isFinite = true) : x.rounded.Whole x.round := by
  by_cases h : 1075 ≤ x.exponentField
  · rw [rounded, if_pos h]
    refine ⟨hf, ?_⟩
    have hden : x.denominator = 1 := by
      rw [denominator, exponent, show 1074 - (x.exponentField - 1) = 0 by omega]
    rw [round_eq, hden, show (2 * x.numerator + 1) / (2 * 1) = x.numerator by omega]
    exact (Int.mul_one _).symm
  · obtain ⟨hpos, hneg⟩ := whole_toFloat (natAbs_round_lt (Nat.lt_of_not_le h))
    have hround := round_eq x
    rw [← natAbs_round, sign] at hround
    rw [rounded, if_neg h]
    by_cases hx : x.isNegative = true
    · have habs : x.round = -(x.round.natAbs : Int) := by rwa [if_pos hx] at hround
      rw [← habs] at hneg
      simpa only [if_pos hx] using hneg
    · have habs : x.round = (x.round.natAbs : Int) := by rwa [if_neg hx] at hround
      rw [← habs] at hpos
      simpa only [if_neg hx] using hpos

theorem float_lt_iff {f g : Float} : f < g ↔ f.toModel.unpack.lt g.toModel.unpack = true := by
  show f.lt g = true ↔ _
  rw [Float.lt, decide_eq_true_iff]
  rfl

theorem float_le_iff {f g : Float} : f ≤ g ↔ f.toModel.unpack.le g.toModel.unpack = true := by
  show f.le g = true ↔ _
  rw [Float.le, decide_eq_true_iff]
  rfl

theorem unpack_lowestInt64 :
    lowestInt64.toModel.unpack = .finite .negative (2 ^ 52) 11 (by decide) := by
  rfl

theorem unpack_highestInt64 :
    highestInt64.toModel.unpack = .finite .positive (2 ^ 52) 11 (by decide) := by
  rfl

theorem not_lt_lowestInt64 (hn : x.NonNeg) (hf : x.isFinite = true) :
    ¬x.toFloat < lowestInt64 := by
  rw [float_lt_iff, unpack_lowestInt64, unpack_toFloat]
  rcases hn.unpacked hf with ⟨s, hu⟩ | ⟨m, e, hm, hu⟩ <;> rw [hu]
  · exact Bool.false_ne_true
  · exact Bool.false_ne_true

theorem le_finite_iff (h : Fits m e) :
    (UnpackedFloat.finite .positive (2 ^ 52) 11 (by decide)).le (.finite .positive m e hm) = true ↔
      11 ≤ e := by
  have hle : (UnpackedFloat.finite .positive (2 ^ 52) 11 (by decide)).le
      (.finite .positive m e hm) = ((compare 11 e).then (compare (2 ^ 52) m)).isLE := rfl
  rw [hle]
  rcases lt_trichotomy e 11 with hlt | rfl | hgt
  · rw [compare_gt_iff_gt.2 hlt]
    exact iff_of_false Bool.false_ne_true (by omega)
  · rw [compare_eq_iff_eq.2 rfl]
    exact iff_of_true (Nat.isLE_compare.2 (h.full.resolve_right (by decide))) le_rfl
  · rw [compare_lt_iff_lt.2 hgt]
    exact iff_of_true rfl hgt.le

theorem Fits.le_iff (h : Fits m e) {n : Int}
    (heq : (m : Int) * 2 ^ e.toNat = n * 2 ^ (-e).toNat) : 11 ≤ e ↔ 2 ^ 63 ≤ n := by
  have hlt : (m : Int) < 2 ^ 53 := by exact_mod_cast h.lt
  constructor
  · intro hlarge
    have hfull : (2 : Int) ^ 52 ≤ m := by exact_mod_cast h.full.resolve_right (by omega)
    have hpow : (2 : Int) ^ 11 ≤ 2 ^ e.toNat := pow_le_pow_right₀ (by decide) (by omega)
    calc (2 : Int) ^ 63 = 2 ^ 52 * 2 ^ 11 := rfl
      _ ≤ (m : Int) * 2 ^ e.toNat := mul_le_mul hfull hpow (by decide) (by omega)
      _ = n := by rw [heq, show (-e).toNat = 0 by omega, pow_zero, mul_one]
  · intro hbig
    by_contra hsmall
    have hpow : (2 : Int) ^ e.toNat ≤ 2 ^ 10 := pow_le_pow_right₀ (by decide) (by omega)
    have hbound : n < 2 ^ 63 := calc
      n ≤ n * 2 ^ (-e).toNat := le_mul_of_one_le_right (by omega) (one_le_pow₀ (by decide))
      _ = m * 2 ^ e.toNat := heq.symm
      _ ≤ m * 2 ^ 10 := mul_le_mul_of_nonneg_left hpow (by omega)
      _ < 2 ^ 63 := by omega
    omega

theorem highestInt64_le_iff {n : Int} (hn : x.NonNeg) (hw : x.Whole n) :
    highestInt64 ≤ x.toFloat ↔ 2 ^ 63 ≤ n := by
  obtain ⟨hf, heq⟩ := hw
  rw [float_le_iff, unpack_highestInt64, unpack_toFloat]
  rcases hn.unpacked hf with ⟨s, hu⟩ | ⟨m, e, hm, hu⟩
  · have hzero := (whole_of_zero hu).2
    have hden := x.denominator_pos
    have hn0 : n = 0 := by
      rw [hzero] at heq
      simpa [hden.ne'] using heq
    rw [hu, hn0]
    exact iff_of_false Bool.false_ne_true (by decide)
  · obtain ⟨hs, -, -, hfits⟩ := of_unpacked_finite hu
    obtain ⟨hnum, hden⟩ := quotient_of_unpacked hu
    rw [hs, hnum, hden] at heq
    rw [hu, le_finite_iff hfits, hfits.le_iff (by exact_mod_cast heq)]

theorem toInt64_eq (hf : x.isFinite = true) :
    x.toInt64 = .ofIntClamp (x.sign.apply (x.numerator / x.denominator : Nat)) := by
  have hnan : x.isNaN = false := by
    simp only [isFinite, ne_eq, decide_eq_true_eq] at hf
    simp [isNaN, hf]
  rw [toInt64, hnan, sign]
  split
  · contradiction
  · split <;> rfl

theorem toInt64_of_whole {n : Int} (hw : x.Whole n) : x.toInt64 = .ofIntClamp n := by
  obtain ⟨hf, heq⟩ := hw
  have hden := x.denominator_pos
  have hnum : x.numerator = n.natAbs * x.denominator := by
    have habs := congrArg Int.natAbs heq
    rwa [natAbs_apply, Int.natAbs_mul, Int.natAbs_natCast] at habs
  have hsign : x.sign.apply n.natAbs = n := by
    rw [hnum] at heq
    refine Int.eq_of_mul_eq_mul_right (Int.natCast_ne_zero.2 hden.ne') (Eq.trans ?_ heq)
    cases x.sign <;> simp [Sign.apply]
  rw [toInt64_eq hf, hnum, Nat.mul_div_cancel _ hden, hsign]

theorem nonNeg_of_whole {n : Int} (hw : x.Whole n) (hn : 0 ≤ n) : x.NonNeg := by
  intro hneg
  have heq := hw.2
  rw [sign, if_pos hneg] at heq
  have hzero : x.numerator = 0 := by
    have hle : 0 ≤ n * x.denominator := Int.mul_nonneg hn (Int.natCast_nonneg _)
    rw [← heq] at hle
    simp only [Sign.apply] at hle
    omega
  exact (Nat.mul_eq_zero.1 hzero).resolve_right (Nat.two_pow_pos _).ne'

end Columnar.Binary64
