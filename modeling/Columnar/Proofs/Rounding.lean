import Columnar.Proofs.Doubles

/-! Rounding to doubles. A mantissa with more bits than a double has is shifted right, rounded, and
shifted once more if the rounding carried, so it never gains more than one bit. Whole numbers of up
to 53 bits are not rounded. A quotient by one or more is not larger than what is divided, so it
stays finite; over one it is exact, and else there is room for the bit that the rounding may carry.
-/

open Float.Model Float.Model.UnpackedFloat

namespace Columnar.Binary64

def excess (m : Nat) (e : Int) : Nat := (max (m.log2 + 1 + e - 53) (-1074) - e).toNat

section Rounding

variable {s : Sign} {m : Nat} {e : Int} {acc : Accuracy}

theorem mantissa_shiftRight (em : ExtendedMantissa) (k : Nat) :
    (em >>> k).mantissa = em.mantissa / 2 ^ k := by
  induction k with
  | zero => exact (Nat.div_one _).symm
  | succ k ih =>
    have hone : (em >>> (k + 1)).mantissa = (em >>> k).mantissa / 2 := rfl
    rw [hone, ih, Nat.div_div_eq_div_mul, pow_succ]

theorem mantissa_le_roundedMantissa (em : ExtendedMantissa) :
    em.mantissa ≤ em.roundedMantissa ∧ em.roundedMantissa ≤ em.mantissa + 1 := by
  obtain ⟨m, r, t⟩ := em
  cases r <;> cases t <;>
    simp only [ExtendedMantissa.roundedMantissa, ExtendedMantissa.accuracy,
      Accuracy.roundToNearestEven] <;>
    omega

theorem mantissa_ofMantissaAndAccuracy (m : Nat) (acc : Accuracy) :
    (ExtendedMantissa.ofMantissaAndAccuracy m acc).mantissa = m := by
  rcases acc with _ | ⟨_ | _ | _⟩ <;> rfl

theorem shiftToTargetExponent_eq (m : Nat) (e : Int) (acc : Accuracy) :
    shiftToTargetExponent .binary64 m e acc =
      (ExtendedMantissa.ofMantissaAndAccuracy m acc >>> excess m e, e + excess m e) := rfl

theorem roundWithAccuracy_eq (s : Sign) (m : Nat) (e : Int) (acc : Accuracy) :
    ∃ r, m / 2 ^ excess m e ≤ r ∧ r ≤ m / 2 ^ excess m e + 1 ∧
      roundWithAccuracy .binary64 s m e acc =
        let e' := e + excess m e
        if h : r / 2 ^ excess r e' = 0 then .zero s
        else .finite s (r / 2 ^ excess r e') (e' + excess r e') (Nat.pos_of_ne_zero h) := by
  let em := ExtendedMantissa.ofMantissaAndAccuracy m acc >>> excess m e
  have hem : em.mantissa = m / 2 ^ excess m e := by
    rw [mantissa_shiftRight, mantissa_ofMantissaAndAccuracy]
  obtain ⟨hle, hle'⟩ := mantissa_le_roundedMantissa em
  refine ⟨em.roundedMantissa, hem ▸ hle, hem ▸ hle', ?_⟩
  simp only [roundWithAccuracy, shiftToTargetExponent_eq, mantissa_shiftRight,
    mantissa_ofMantissaAndAccuracy, em]

theorem log2_div_two_pow (m k : Nat) : (m / 2 ^ k).log2 = m.log2 - k := by
  rw [Nat.log2_eq_log_two, Nat.log2_eq_log_two, Nat.log_div_base_pow]

theorem log2_le_of_le_succ {m r : Nat} (h : r ≤ m + 1) : r.log2 ≤ m.log2 + 1 := by
  rcases Nat.eq_zero_or_pos r with rfl | hr
  · exact Nat.zero_le _
  · have hm : m < 2 ^ (m.log2 + 1) := Nat.lt_log2_self
    have hlt : r < 2 ^ (m.log2 + 2) := by
      rw [pow_succ]
      omega
    exact Nat.le_of_lt_succ ((Nat.log2_lt hr.ne').2 hlt)

theorem excess_eq_zero (hm : m < 2 ^ 53) (he : -1074 ≤ e) : excess m e = 0 := by
  have hlog : m.log2 ≤ 52 := by
    rcases Nat.eq_zero_or_pos m with rfl | hpos
    · exact Nat.zero_le _
    · exact Nat.le_of_lt_succ ((Nat.log2_lt hpos.ne').2 hm)
  rw [excess]
  omega

theorem roundWithAccuracy_exact (hm : 0 < m) (hlt : m < 2 ^ 53) (he : -1074 ≤ e) :
    roundWithAccuracy .binary64 s m e .exact = .finite s m e hm := by
  have hround : (ExtendedMantissa.ofMantissaAndAccuracy m .exact >>> 0).roundedMantissa = m := rfl
  have hkeep : (ExtendedMantissa.ofMantissaAndAccuracy m .exact >>> 0).mantissa = m := rfl
  simp only [roundWithAccuracy, shiftToTargetExponent_eq, excess_eq_zero hlt he, hround,
    Nat.cast_zero, add_zero, hkeep, dif_neg hm.ne']

theorem roundWithAccuracy_full (s : Sign) (acc : Accuracy) (hlog : 52 ≤ m.log2)
    (he : -1074 ≤ e) :
    ∃ r e' h, roundWithAccuracy .binary64 s m e acc = .finite s r e' h ∧
      2 ^ 52 ≤ r ∧ r < 2 ^ 53 ∧ m.log2 + e - 52 ≤ e' ∧ e' ≤ m.log2 + e - 51 := by
  have hk : excess m e = m.log2 - 52 := by
    rw [excess]
    omega
  have hcut : (m / 2 ^ excess m e).log2 = 52 := by
    rw [log2_div_two_pow, hk]
    omega
  have hne : m / 2 ^ excess m e ≠ 0 := by
    intro h
    rw [h] at hcut
    cases hcut
  obtain ⟨hlo, hhi⟩ := (Nat.log2_eq_iff hne).1 hcut
  obtain ⟨r, hle, hle', heq⟩ := roundWithAccuracy_eq s m e acc
  by_cases hr : r < 2 ^ 53
  · have hzero : excess r (e + excess m e) = 0 := excess_eq_zero hr (by omega)
    simp only [hzero, pow_zero, Nat.div_one] at heq
    rw [dif_neg (by omega)] at heq
    exact ⟨r, _, _, heq, by omega, hr, by omega, by omega⟩
  · obtain rfl : r = 2 ^ 53 := by omega
    have hone : excess (2 ^ 53) (e + excess m e) = 1 := by
      rw [excess, Nat.log2_two_pow]
      omega
    simp only [hone] at heq
    rw [dif_neg (by decide)] at heq
    exact ⟨_, _, _, heq, by decide, by decide, by omega, by omega⟩

def Bounded (s : Sign) (u : UnpackedFloat) : Prop :=
  u = .zero s ∨ ∃ m e h, u = .finite s m e h ∧ e ≤ 971

theorem roundWithAccuracy_bounded (hsize : m.log2 + 1 + e ≤ 1023) (he : e ≤ 970) :
    Bounded s (roundWithAccuracy .binary64 s m e acc) := by
  obtain ⟨r, -, hle, heq⟩ := roundWithAccuracy_eq s m e acc
  have hlog := log2_le_of_le_succ hle
  rw [log2_div_two_pow] at hlog
  rw [heq]
  dsimp only
  split
  · exact .inl rfl
  · refine .inr ⟨_, _, _, rfl, ?_⟩
    have hfirst : excess m e = (max (m.log2 + 1 + e - 53) (-1074) - e).toNat := rfl
    have hsecond : excess r (e + excess m e) =
        (max (r.log2 + 1 + (e + excess m e) - 53) (-1074) - (e + excess m e)).toNat := rfl
    omega

theorem roundWithAccuracy_cases (s : Sign) (m : Nat) (e : Int) (acc : Accuracy) :
    roundWithAccuracy .binary64 s m e acc = .zero s ∨
      ∃ m' e' h, roundWithAccuracy .binary64 s m e acc = .finite s m' e' h := by
  obtain ⟨r, -, -, heq⟩ := roundWithAccuracy_eq s m e acc
  rw [heq]
  dsimp only
  split
  · exact .inl rfl
  · rename_i h
    exact .inr ⟨_, _, Nat.pos_of_ne_zero h, rfl⟩

end Rounding

section WholeNumbers

variable {n : Nat}

theorem ofNat_eq (hn : 0 < n) : UnpackedFloat.ofNat .binary64 n =
    roundWithAccuracy .binary64 .positive (n <<< (52 - n.log2)) (-(52 - n.log2 : Nat)) .exact := by
  have hpos : compare (n : Int) 0 = .gt := by
    rw [compare_gt_iff_gt]
    omega
  have hshift : (-max (n.log2 + 1 + 0 - (53 : Int)) (-1074)).toNat = 52 - n.log2 := by omega
  have htarget : Format.targetExponent .binary64 (totalExponent n 0) =
      max (n.log2 + 1 + 0 - (53 : Int)) (-1074) := rfl
  simp only [UnpackedFloat.ofNat, UnpackedFloat.ofInt, UnpackedFloat.normalize, hpos,
    UnpackedFloat.round, decreaseExponent, Int.toNat_natCast, htarget, zero_sub, hshift]

theorem log2_shiftLeft (hn : 0 < n) (k : Nat) : (n <<< k).log2 = n.log2 + k := by
  induction k with
  | zero => rfl
  | succ k ih =>
    have hne : n <<< k ≠ 0 := by simp [Nat.shiftLeft_eq, hn.ne']
    rw [Nat.shiftLeft_succ, Nat.log2_two_mul hne, ih, add_assoc]

theorem ofNat_of_lt (hn : 0 < n) (hlt : n < 2 ^ 53) :
    ∃ h, UnpackedFloat.ofNat .binary64 n =
      .finite .positive (n <<< (52 - n.log2)) (-(52 - n.log2 : Nat)) h := by
  have hlog : n.log2 < 53 := (Nat.log2_lt hn.ne').2 hlt
  have hlog' : (n <<< (52 - n.log2)).log2 = 52 := by
    rw [log2_shiftLeft hn]
    omega
  have hpos : 0 < n <<< (52 - n.log2) := by
    rw [Nat.shiftLeft_eq]
    positivity
  refine ⟨hpos, ?_⟩
  rw [ofNat_eq hn, roundWithAccuracy_exact hpos ((Nat.log2_lt hpos.ne').1 (by omega)) (by omega)]

theorem ofNat_full (hn : 0 < n) : ∃ m e h,
    UnpackedFloat.ofNat .binary64 n = .finite .positive m e h ∧
      2 ^ 52 ≤ m ∧ m < 2 ^ 53 ∧ n.log2 - 52 ≤ e ∧ e ≤ n.log2 - (51 : Int) := by
  have hlog := log2_shiftLeft hn (52 - n.log2)
  obtain ⟨m, e, h, heq, hm, hm', he, he'⟩ := roundWithAccuracy_full .positive .exact
    (show 52 ≤ (n <<< (52 - n.log2)).log2 by omega)
    (show -1074 ≤ (-(52 - n.log2 : Nat) : Int) by omega)
  exact ⟨m, e, h, by rw [ofNat_eq hn, heq], hm, hm', by omega, by omega⟩

end WholeNumbers

section Quotients

variable {s : Sign} {m m' : Nat} {e e' : Int} {h : 0 < m} {h' : 0 < m'}

theorem log2_div_le (m : Nat) (hm' : 2 ^ 52 ≤ m') : (m / m').log2 ≤ m.log2 - 52 := by
  rw [← log2_div_two_pow, Nat.log2_eq_log_two, Nat.log2_eq_log_two]
  exact Nat.log_mono_right (Nat.div_le_div_left hm' (by decide))

theorem div_bounded_of_small (hm' : 2 ^ 52 ≤ m') (hlt : m' < 2 ^ 53)
    (hsize : m.log2 + 1 + e - (53 + e') ≤ 1022) :
    Bounded (s / .positive)
      (UnpackedFloat.div .binary64 (.finite s m e h) (.finite .positive m' e' h')) := by
  have hlog' : m'.log2 = 52 := (Nat.log2_eq_iff h'.ne').2 ⟨hm', hlt⟩
  let t : Int := min (e - e') (max (m.log2 + 1 + e - (m'.log2 + 1 + e') - 53) (-1074))
  have hdiv : UnpackedFloat.div .binary64 (.finite s m e h) (.finite .positive m' e' h') =
      roundWithAccuracy .binary64 (s / .positive) ((m <<< (e - e' - t).toNat) / m') t
        (accuracyOfFraction ((m <<< (e - e' - t).toNat) % m') m') := rfl
  have hlog := log2_div_le (m <<< (e - e' - t).toNat) hm'
  rw [log2_shiftLeft h] at hlog
  rw [hdiv]
  apply roundWithAccuracy_bounded <;> omega

theorem roundWithAccuracy_double (hm : 2 ^ 52 ≤ m) (hlt : m < 2 ^ 53) (he : -1074 ≤ e) :
    roundWithAccuracy .binary64 s (2 * m) e .exact = .finite s m (e + 1) h := by
  have hlog : m.log2 = 52 := (Nat.log2_eq_iff h.ne').2 ⟨hm, hlt⟩
  have hone : excess (2 * m) e = 1 := by
    rw [excess, Nat.log2_two_mul h.ne', hlog]
    omega
  -- The bit that is shifted out is zero.
  have hfirst : shiftToTargetExponent .binary64 (2 * m) e .exact =
      (ExtendedMantissa.ofMantissaAndAccuracy m .exact, e + 1) := by
    have hstep : ExtendedMantissa.ofMantissaAndAccuracy (2 * m) .exact >>> 1 =
        ExtendedMantissa.shiftRightOne ⟨2 * m, false, false⟩ := rfl
    rw [shiftToTargetExponent_eq, hone, hstep, ExtendedMantissa.shiftRightOne]
    simp [ExtendedMantissa.ofMantissaAndAccuracy]
  have hsecond : shiftToTargetExponent .binary64 m (e + 1) .exact =
      (ExtendedMantissa.ofMantissaAndAccuracy m .exact, e + 1) := by
    rw [shiftToTargetExponent_eq, excess_eq_zero hlt (by omega), Nat.cast_zero, add_zero]
    rfl
  have hround : (ExtendedMantissa.ofMantissaAndAccuracy m .exact).roundedMantissa = m := rfl
  simp only [roundWithAccuracy, hfirst, hround, hsecond, mantissa_ofMantissaAndAccuracy,
    dif_neg h.ne']

theorem div_one_bounded (hm : 2 ^ 52 ≤ m) (hlt : m < 2 ^ 53) (h1 : 0 < 2 ^ 52) :
    Bounded (s / .positive)
      (UnpackedFloat.div .binary64 (.finite s m 971 h) (.finite .positive (2 ^ 52) (-52) h1)) := by
  have hlog : m.log2 = 52 := (Nat.log2_eq_iff h.ne').2 ⟨hm, hlt⟩
  have hsize : totalExponent m 971 - totalExponent (2 ^ 52) (-52) = 1023 := by
    rw [totalExponent, totalExponent, hlog, Nat.log2_two_pow]
    rfl
  have hshift : m <<< 53 = 2 * m * 2 ^ 52 := by
    rw [Nat.shiftLeft_eq]
    ring
  have hcore : divCore .binary64 m 971 (2 ^ 52) (-52) = (2 * m, 970, .exact) := by
    have htarget : min (971 - -52) (Format.targetExponent .binary64 1023) = 970 := rfl
    simp only [divCore, hsize, htarget]
    rw [show (971 - -52 - 970 : Int).toNat = 53 from rfl, hshift,
      Nat.mul_div_cancel _ (by decide), Nat.mul_mod_left]
    rfl
  simp only [UnpackedFloat.div, hcore]
  exact .inr ⟨m, 971, h, roundWithAccuracy_double hm hlt (by decide), le_rfl⟩

end Quotients

end Columnar.Binary64
