import Mathlib.Algebra.Order.Field.Power
import Mathlib.Algebra.Order.Field.Rat
import Mathlib.Tactic.FieldSimp
import Mathlib.Tactic.Linarith
import Mathlib.Tactic.Positivity
import Mathlib.Tactic.Ring
import Columnar.Binary64

/-! The double nearest to a number. Doubles of one exponent are equally far apart, and the distance
doubles with the next exponent; only below the least significand of an exponent the next double is
half as far away. So what is rounded to a double lies between the middles towards its neighbours,
and no number is rounded to two doubles. -/

namespace Columnar.Binary64

/-- The absolute value of a finite double. An infinity counts as the double that would be next. -/
def absValue (x : Binary64) : ℚ := x.significand * 2 ^ ((x.exponent : ℤ) - 1074)

/-- `q` is rounded to `x`, signs left aside: no double is nearer, and where another one is as near,
`x` has the even significand. -/
def NearestTo (x : Binary64) (q : ℚ) : Prop :=
  ∀ y : Binary64, y.isNaN = false → y.absValue ≠ x.absValue →
    |q - x.absValue| < |q - y.absValue| ∨
      |q - x.absValue| = |q - y.absValue| ∧ x.significand % 2 = 0

def units (x : Binary64) : Nat := x.significand * 2 ^ x.exponent

def Narrow (x : Binary64) : Prop := x.significand = 2 ^ 52 ∧ 1 < x.exponentField

instance (x : Binary64) : Decidable x.Narrow := inferInstanceAs (Decidable (_ ∧ _))

def stepAbove (x : Binary64) : Nat := 2 ^ x.exponent

def stepBelow (x : Binary64) : Nat := if x.Narrow then 2 ^ (x.exponent - 1) else 2 ^ x.exponent

section Steps

variable {x y : Binary64}

theorem exponentField_eq (x : Binary64) : x.exponentField = x.bits.toNat / 2 ^ 52 % 2048 := by
  simp [exponentField, Nat.shiftRight_eq_div_pow]

theorem le_significand (h : x.exponent ≠ 0) : 2 ^ 52 ≤ x.significand := by
  have hfield : x.exponentField ≠ 0 := by
    rw [exponent] at h
    omega
  rw [significand, if_neg hfield]
  omega

theorem units_add_le {e : Nat} (h : x.exponent ≤ e) : x.units + 2 ^ e ≤ 2 ^ 53 * 2 ^ e := by
  calc x.units + 2 ^ e ≤ x.significand * 2 ^ e + 2 ^ e :=
        Nat.add_le_add_right (Nat.mul_le_mul_left _ (Nat.pow_le_pow_right (by decide) h)) _
    _ = (x.significand + 1) * 2 ^ e := (Nat.succ_mul _ _).symm
    _ ≤ 2 ^ 53 * 2 ^ e := Nat.mul_le_mul_right _ x.significand_lt

theorem units_add_le_of_exponent_lt (h : y.exponent < x.exponent) :
    y.units + 2 ^ (x.exponent - 1) ≤ 2 ^ 52 * 2 ^ x.exponent := by
  have hdouble : 2 ^ 53 * 2 ^ (x.exponent - 1) = 2 ^ 52 * 2 ^ x.exponent := by
    rw [← Nat.pow_add, ← Nat.pow_add]
    congr 1
    omega
  rw [← hdouble]
  exact units_add_le (by omega)

theorem le_units (h : x.exponent ≠ 0) : 2 ^ 52 * 2 ^ x.exponent ≤ x.units :=
  Nat.mul_le_mul_right _ (le_significand h)

theorem exponent_le_of_units_le (h : x.units ≤ y.units) : x.exponent ≤ y.exponent := by
  by_contra hlt
  have hy := units_add_le_of_exponent_lt (Nat.lt_of_not_le hlt)
  have hx := le_units (x := x) (by omega)
  have hpos := Nat.two_pow_pos (x.exponent - 1)
  omega

theorem units_eq_mul (h : x.exponent ≤ y.exponent) :
    y.units = y.significand * 2 ^ (y.exponent - x.exponent) * 2 ^ x.exponent := by
  rw [units, Nat.mul_assoc, ← Nat.pow_add, Nat.sub_add_cancel h]

theorem units_add_stepAbove_le (h : x.units < y.units) : x.units + x.stepAbove ≤ y.units := by
  have hy := units_eq_mul (exponent_le_of_units_le h.le)
  have hlt : x.significand < y.significand * 2 ^ (y.exponent - x.exponent) := by
    rw [hy, units] at h
    exact Nat.lt_of_mul_lt_mul_right h
  calc x.units + x.stepAbove = (x.significand + 1) * 2 ^ x.exponent := (Nat.succ_mul _ _).symm
    _ ≤ y.units := hy ▸ Nat.mul_le_mul_right _ hlt

theorem stepBelow_le (x : Binary64) : x.stepBelow ≤ x.stepAbove := by
  rw [stepBelow]
  split
  · exact Nat.pow_le_pow_right (by decide) (Nat.sub_le _ _)
  · exact Nat.le_refl _

theorem stepBelow_le_units (h : x.significand ≠ 0) : x.stepBelow ≤ x.units :=
  x.stepBelow_le.trans (Nat.le_mul_of_pos_left _ (Nat.pos_of_ne_zero h))

theorem units_add_stepBelow_le (h : y.units < x.units) : y.units + x.stepBelow ≤ x.units := by
  rcases (exponent_le_of_units_le h.le).eq_or_lt with heq | hlt
  · have hstep := units_add_stepAbove_le h
    rw [stepAbove, heq] at hstep
    exact (Nat.add_le_add_left x.stepBelow_le _).trans hstep
  · have hy := units_add_le_of_exponent_lt hlt
    by_cases hnarrow : x.Narrow
    · rwa [stepBelow, if_pos hnarrow, units.eq_1 x, hnarrow.1]
    · have hfull := le_significand (x := x) (by omega)
      have hne : x.significand ≠ 2 ^ 52 := by
        intro heq
        refine hnarrow ⟨heq, ?_⟩
        rw [exponent, exponent] at hlt
        omega
      rw [stepBelow, if_neg hnarrow]
      calc y.units + 2 ^ x.exponent ≤ 2 ^ 52 * 2 ^ x.exponent + 2 ^ x.exponent :=
            Nat.add_le_add_right (Nat.le_of_add_right_le hy) _
        _ = (2 ^ 52 + 1) * 2 ^ x.exponent := (Nat.succ_mul _ _).symm
        _ ≤ x.units := Nat.mul_le_mul_right _ (by omega)

end Steps

def ofFields (e f : Nat) : Binary64 := ⟨.ofNat (e * 2 ^ 52 + f)⟩

section Neighbours

variable {e f : Nat} {x : Binary64}

theorem fields_ofFields (he : e < 2048) (hf : f < 2 ^ 52) :
    (ofFields e f).exponentField = e ∧ (ofFields e f).fractionField = f := by
  have hbits : (ofFields e f).bits.toNat = e * 2 ^ 52 + f :=
    UInt64.toNat_ofNat_of_lt' (by rw [show UInt64.size = 2 ^ 64 from rfl]; omega)
  refine ⟨?_, ?_⟩
  · rw [exponentField_eq, hbits]
    omega
  · rw [fractionField, hbits]
    omega

theorem units_ofFields (he : e < 2048) (hf : f < 2 ^ 52) :
    (ofFields e f).units = (if e = 0 then f else 2 ^ 52 + f) * 2 ^ (e - 1) := by
  obtain ⟨hexp, hfrac⟩ := fields_ofFields he hf
  rw [units, significand, exponent, hexp, hfrac]
  rfl

theorem units_eq (x : Binary64) : x.units =
    (if x.exponentField = 0 then x.fractionField else 2 ^ 52 + x.fractionField) *
      2 ^ (x.exponentField - 1) := rfl

theorem not_isNaN_ofFields (he : e < 2048) (hf : f < 2 ^ 52) (h : e ≠ 2047 ∨ f = 0) :
    (ofFields e f).isNaN = false := by
  obtain ⟨hexp, hfrac⟩ := fields_ofFields he hf
  rw [isNaN, hexp, hfrac]
  rcases h with h | h <;> simp [h]

theorem exists_above (h : x.isFinite = true) :
    ∃ y : Binary64, y.isNaN = false ∧ y.units = x.units + x.stepAbove := by
  have hfield := x.isFinite_iff.1 h
  have hexp := x.exponentField_lt
  have hfrac := x.fractionField_lt
  by_cases hlast : x.fractionField + 1 < 2 ^ 52
  · refine ⟨ofFields x.exponentField (x.fractionField + 1),
      not_isNaN_ofFields hexp hlast (.inl hfield), ?_⟩
    rw [units_ofFields hexp hlast, units_eq, stepAbove, exponent]
    split <;> ring
  · have hf : x.fractionField = 2 ^ 52 - 1 := by omega
    refine ⟨ofFields (x.exponentField + 1) 0,
      not_isNaN_ofFields (by omega) (by decide) (.inr rfl), ?_⟩
    rw [units_ofFields (by omega) (by decide), units_eq, stepAbove, exponent, hf,
      if_neg (Nat.succ_ne_zero _)]
    rcases Nat.eq_zero_or_pos x.exponentField with hzero | hpos
    · rw [hzero]
      rfl
    · obtain ⟨k, hk⟩ := Nat.exists_eq_add_of_lt hpos
      rw [hk, if_neg (by omega)]
      simp only [Nat.zero_add, Nat.add_sub_cancel]
      ring

theorem exists_below (h : x.isFinite = true) (hsig : x.significand ≠ 0) :
    ∃ y : Binary64, y.isNaN = false ∧ y.units + x.stepBelow = x.units := by
  have hfield := x.isFinite_iff.1 h
  have hexp := x.exponentField_lt
  have hfrac := x.fractionField_lt
  rcases Nat.eq_zero_or_pos x.fractionField with hf | hf
  · have hpos : x.exponentField ≠ 0 := by
      intro hzero
      exact hsig (by rw [significand, if_pos hzero, hf])
    have hleast : x.significand = 2 ^ 52 := by
      rw [significand, if_neg hpos, hf]
      rfl
    refine ⟨ofFields (x.exponentField - 1) (2 ^ 52 - 1),
      not_isNaN_ofFields (by omega) (by decide) (.inl (by omega)), ?_⟩
    rw [units_ofFields (by omega) (by decide), units, hleast]
    by_cases hone : x.exponentField = 1
    · have hwide : ¬x.Narrow := fun hnarrow => hnarrow.2.ne' hone
      rw [stepBelow, if_neg hwide, exponent, hone]
      rfl
    · obtain ⟨k, hk⟩ : ∃ k, x.exponentField = k + 2 := ⟨x.exponentField - 2, by omega⟩
      have hnarrow : x.Narrow := ⟨hleast, by omega⟩
      rw [stepBelow, if_pos hnarrow, if_neg (by omega), exponent, hk]
      simp only [Nat.add_succ_sub_one]
      ring
  · have hlt : x.fractionField - 1 < 2 ^ 52 := by omega
    refine ⟨ofFields x.exponentField (x.fractionField - 1),
      not_isNaN_ofFields hexp hlt (.inl hfield), ?_⟩
    have hwide : ¬x.Narrow := by
      rintro ⟨hs, he⟩
      rw [significand, if_neg (by omega)] at hs
      omega
    obtain ⟨k, hk⟩ := Nat.exists_eq_add_of_lt hf
    rw [units_ofFields hexp hlt, units_eq, stepBelow, if_neg hwide, exponent, hk]
    simp only [Nat.zero_add, Nat.add_sub_cancel]
    split <;> ring

end Neighbours

def UpTo (closed : Prop) (a b : ℚ) : Prop := a < b ∨ a = b ∧ closed

section Distances

variable {closed : Prop} {a b c q : ℚ}

theorem UpTo.trans_le (h : UpTo closed a b) (hle : b ≤ c) : UpTo closed a c := by
  rcases h with hlt | ⟨rfl, hclosed⟩
  · exact .inl (hlt.trans_le hle)
  · exact hle.lt_or_eq.imp_right fun heq => ⟨heq, hclosed⟩

theorem UpTo.le_trans (hle : a ≤ b) (h : UpTo closed b c) : UpTo closed a c := by
  rcases h with hlt | ⟨rfl, hclosed⟩
  · exact .inl (hle.trans_lt hlt)
  · exact hle.lt_or_eq.imp_right fun heq => ⟨heq, hclosed⟩

theorem UpTo.le (h : UpTo closed a b) : a ≤ b := h.elim le_of_lt fun heq => heq.1.le

theorem UpTo.closed_of_le (h : UpTo closed a b) (hle : b ≤ a) : closed :=
  h.elim (fun hlt => absurd hlt hle.not_gt) And.right

theorem closer_below_iff (h : a < b) :
    UpTo closed |q - a| |q - b| ↔ UpTo closed (2 * q) (a + b) := by
  have hlt : |q - a| < |q - b| ↔ 2 * q < a + b := by
    rw [← sq_lt_sq]
    constructor <;> intro hq <;> nlinarith
  have heq : |q - a| = |q - b| ↔ 2 * q = a + b := by
    rw [← sq_eq_sq_iff_abs_eq_abs]
    constructor
    · intro hq
      have hmul : (b - a) * (2 * q - (a + b)) = 0 := by linarith
      linarith [(mul_eq_zero.1 hmul).resolve_left (sub_pos.2 h).ne']
    · intro hq
      have hb : b = 2 * q - a := by linarith
      rw [hb]
      ring
  rw [UpTo, UpTo, hlt, heq]

theorem closer_above_iff (h : b < a) :
    UpTo closed |q - a| |q - b| ↔ UpTo closed (a + b) (2 * q) := by
  have hmirror := @closer_below_iff closed (-a) (-b) (-q) (neg_lt_neg h)
  have hlt : 2 * -q < -a + -b ↔ a + b < 2 * q := by constructor <;> intro hq <;> linarith
  have heq : 2 * -q = -a + -b ↔ a + b = 2 * q := by constructor <;> intro hq <;> linarith
  rw [neg_sub_neg, neg_sub_neg, abs_sub_comm a, abs_sub_comm b] at hmirror
  rw [hmirror, UpTo, UpTo, hlt, heq]

end Distances

def unit : ℚ := 2 ^ (-1074 : ℤ)

theorem unit_pos : 0 < unit := zpow_pos (by decide) _

theorem absValue_eq (x : Binary64) : x.absValue = x.units * unit := by
  have hsplit : (2 : ℚ) ^ ((x.exponent : ℤ) - 1074) = 2 ^ x.exponent * unit := by
    rw [sub_eq_add_neg, zpow_add₀ (by decide), zpow_natCast, unit]
  rw [absValue, hsplit, units, Nat.cast_mul, Nat.cast_pow, Nat.cast_ofNat, mul_assoc]

theorem absValue_lt_iff {x y : Binary64} : x.absValue < y.absValue ↔ x.units < y.units := by
  rw [absValue_eq, absValue_eq, mul_lt_mul_iff_of_pos_right unit_pos, Nat.cast_lt]

theorem absValue_inj {x y : Binary64} : x.absValue = y.absValue ↔ x.units = y.units := by
  rw [absValue_eq, absValue_eq, mul_left_inj' unit_pos.ne', Nat.cast_inj]

def twiceMiddleAbove (x : Binary64) : ℚ := (2 * x.units + x.stepAbove : Nat) * unit

def twiceMiddleBelow (x : Binary64) : ℚ := (2 * x.units - x.stepBelow : Nat) * unit

/-- What is rounded to a double lies between the middles, and on one of them for an even
significand. -/
def Between (x : Binary64) (q : ℚ) : Prop :=
  UpTo (x.significand % 2 = 0) x.twiceMiddleBelow (2 * q) ∧
    UpTo (x.significand % 2 = 0) (2 * q) x.twiceMiddleAbove

section Between

variable {x y : Binary64} {q : ℚ}

theorem stepAbove_pos (x : Binary64) : 0 < x.stepAbove := Nat.two_pow_pos _

theorem stepBelow_pos (x : Binary64) : 0 < x.stepBelow := by
  rw [stepBelow]
  split <;> exact Nat.two_pow_pos _

theorem absValue_lt_of_above (h : y.units = x.units + x.stepAbove) : x.absValue < y.absValue := by
  have hpos := x.stepAbove_pos
  exact absValue_lt_iff.2 (by omega)

theorem absValue_lt_of_below (h : y.units + x.stepBelow = x.units) : y.absValue < x.absValue := by
  have hpos := x.stepBelow_pos
  exact absValue_lt_iff.2 (by omega)

theorem absValue_add_above (h : y.units = x.units + x.stepAbove) :
    x.absValue + y.absValue = x.twiceMiddleAbove := by
  rw [absValue_eq, absValue_eq, twiceMiddleAbove, h]
  push_cast
  ring

theorem absValue_add_below (h : y.units + x.stepBelow = x.units) :
    x.absValue + y.absValue = x.twiceMiddleBelow := by
  have hunits : 2 * x.units - x.stepBelow = x.units + y.units := by omega
  rw [absValue_eq, absValue_eq, twiceMiddleBelow, hunits]
  push_cast
  ring

theorem twiceMiddleAbove_le (h : x.units < y.units) :
    x.twiceMiddleAbove ≤ x.absValue + y.absValue := by
  have hstep := units_add_stepAbove_le h
  rw [absValue_eq, absValue_eq, twiceMiddleAbove, ← add_mul, ← Nat.cast_add]
  exact mul_le_mul_of_nonneg_right (Nat.cast_le.2 (by omega)) unit_pos.le

theorem le_twiceMiddleBelow (h : y.units < x.units) :
    x.absValue + y.absValue ≤ x.twiceMiddleBelow := by
  have hstep := units_add_stepBelow_le h
  rw [absValue_eq, absValue_eq, twiceMiddleBelow, ← add_mul, ← Nat.cast_add]
  exact mul_le_mul_of_nonneg_right (Nat.cast_le.2 (by omega)) unit_pos.le

theorem nearestTo_iff (hf : x.isFinite = true) (hsig : x.significand ≠ 0) :
    x.NearestTo q ↔ x.Between q := by
  constructor
  · intro h
    obtain ⟨y, hy, habove⟩ := exists_above hf
    obtain ⟨z, hz, hbelow⟩ := exists_below hf hsig
    have hlt := absValue_lt_of_above habove
    have hgt := absValue_lt_of_below hbelow
    have hupper := (closer_below_iff hlt).1 (h y hy hlt.ne')
    have hlower := (closer_above_iff hgt).1 (h z hz hgt.ne)
    rw [absValue_add_above habove] at hupper
    rw [absValue_add_below hbelow] at hlower
    exact ⟨hlower, hupper⟩
  · rintro ⟨hlower, hupper⟩ y - hne
    rcases lt_or_gt_of_ne hne with hlt | hgt
    · exact (closer_above_iff hlt).2 (.le_trans (le_twiceMiddleBelow (absValue_lt_iff.1 hlt)) hlower)
    · exact (closer_below_iff hgt).2 (hupper.trans_le (twiceMiddleAbove_le (absValue_lt_iff.1 hgt)))

theorem nearestTo_absValue (x : Binary64) : x.NearestTo x.absValue := by
  intro y _ hne
  refine .inl ?_
  rw [sub_self, abs_zero, abs_pos, sub_ne_zero]
  exact hne.symm

theorem absValue_ne_zero (hsig : x.significand ≠ 0) : x.absValue ≠ 0 := by
  rw [absValue_eq]
  refine mul_ne_zero (Nat.cast_ne_zero.2 ?_) unit_pos.ne'
  exact Nat.mul_ne_zero hsig (Nat.two_pow_pos _).ne'

theorem not_nearestTo_zero (hsig : x.significand ≠ 0) : ¬x.NearestTo 0 := by
  intro h
  have hzero : absValue ⟨0⟩ = 0 := by
    rw [absValue_eq, show units ⟨0⟩ = 0 from rfl, Nat.cast_zero, zero_mul]
  have hne := absValue_ne_zero hsig
  have hle : |0 - x.absValue| ≤ |0 - absValue ⟨0⟩| :=
    UpTo.le (h ⟨0⟩ rfl (by rw [hzero]; exact hne.symm))
  rw [hzero, sub_zero, abs_zero, zero_sub, abs_neg, abs_nonpos_iff] at hle
  exact hne hle

theorem units_lt_steps (x : Binary64) : 2 * x.units < (x.stepAbove + x.stepBelow) * 2 ^ 53 := by
  have hpos := x.stepBelow_pos
  rw [stepAbove, units]
  by_cases hnarrow : x.Narrow
  · rw [hnarrow.1]
    omega
  · have hlt := Nat.mul_lt_mul_of_pos_right x.significand_lt (Nat.two_pow_pos x.exponent)
    rw [stepBelow, if_neg hnarrow]
    omega

theorem absValue_lt_width (hsig : x.significand ≠ 0) :
    x.absValue * 2 < (x.twiceMiddleAbove - x.twiceMiddleBelow) * 2 ^ 53 := by
  have hle := x.stepBelow_le_units hsig
  have hlt := (Nat.cast_lt (α := ℚ)).2 x.units_lt_steps
  rw [absValue_eq, twiceMiddleAbove, twiceMiddleBelow, Nat.cast_sub (by omega)]
  push_cast at hlt ⊢
  have hmul := mul_lt_mul_of_pos_right hlt unit_pos
  linarith

end Between

section Unique

variable {x y : Binary64} {q : ℚ}

theorem isNaN_of_isFinite (h : x.isFinite = true) : x.isNaN = false := by
  have hfield := x.isFinite_iff.1 h
  rw [isNaN, decide_eq_false hfield, Bool.false_and]

theorem units_ne_above (hx : x.significand % 2 = 0) (hy : y.significand % 2 = 0) :
    y.units ≠ x.units + x.stepAbove := by
  intro h
  have hlt := absValue_lt_iff.1 (absValue_lt_of_above h)
  have hmul := units_eq_mul (exponent_le_of_units_le hlt.le)
  rw [h, units, stepAbove, ← Nat.succ_mul] at hmul
  have hodd := Nat.eq_of_mul_eq_mul_right x.stepAbove_pos hmul
  have heven : y.significand * 2 ^ (y.exponent - x.exponent) % 2 = 0 := by
    rw [Nat.mul_mod, hy, Nat.zero_mul, Nat.zero_mod]
  omega

theorem not_lt_of_nearestTo (hfx : x.isFinite = true) (hfy : y.isFinite = true)
    (hx : x.NearestTo q) (hy : y.NearestTo q) : ¬x.absValue < y.absValue := by
  intro hlt
  have hxy := (closer_below_iff hlt).1 (hx y (isNaN_of_isFinite hfy) hlt.ne')
  have hyx := (closer_above_iff hlt).1 (hy x (isNaN_of_isFinite hfx) hlt.ne)
  rw [add_comm] at hyx
  -- So `q` is the middle of the two, and no double is nearer than they are.
  obtain ⟨z, hz, habove⟩ := exists_above hfx
  have hxz := absValue_lt_of_above habove
  have hq := ((closer_below_iff hxz).1 (hx z hz hxz.ne')).le
  have hyz : ¬z.absValue < y.absValue := by
    have := hyx.le
    linarith
  have hstep := units_add_stepAbove_le (absValue_lt_iff.1 hlt)
  rw [absValue_lt_iff, habove, not_lt] at hyz
  exact units_ne_above (hxy.closed_of_le hyx.le) (hyx.closed_of_le hxy.le) (hyz.antisymm hstep)

theorem absValue_unique (hfx : x.isFinite = true) (hfy : y.isFinite = true)
    (hx : x.NearestTo q) (hy : y.NearestTo q) : x.absValue = y.absValue :=
  le_antisymm (not_lt.1 (not_lt_of_nearestTo hfy hfx hy hx))
    (not_lt.1 (not_lt_of_nearestTo hfx hfy hx hy))

theorem eq_of_fields (hsign : x.isNegative = y.isNegative)
    (hexp : x.exponentField = y.exponentField) (hfrac : x.fractionField = y.fractionField) :
    x = y := by
  have hx := x.bits.toNat_lt
  have hy := y.bits.toNat_lt
  have htop := x.isNegative_iff
  rw [hsign, y.isNegative_iff] at htop
  rw [exponentField_eq, exponentField_eq] at hexp
  have hbits : x.bits.toNat = y.bits.toNat := by
    rw [fractionField, fractionField] at hfrac
    omega
  cases x
  cases y
  exact congrArg mk (UInt64.toNat_inj.1 hbits)

theorem fields_of_infinite (hf : ¬x.isFinite = true) (hn : ¬x.isNaN = true) :
    x.exponentField = 2047 ∧ x.fractionField = 0 := by
  have hfield : x.exponentField = 2047 := not_not.1 fun hne => hf (x.isFinite_iff.2 hne)
  refine ⟨hfield, ?_⟩
  simpa [isNaN, hfield] using hn

theorem eq_of_absValue_eq (h : x.absValue = y.absValue) (hsign : x.isNegative = y.isNegative) :
    x = y := by
  have hunits := absValue_inj.1 h
  have hexp : x.exponent = y.exponent :=
    (exponent_le_of_units_le hunits.le).antisymm (exponent_le_of_units_le hunits.ge)
  have hsig : x.significand = y.significand := by
    rw [units, units, hexp] at hunits
    exact Nat.eq_of_mul_eq_mul_right (Nat.two_pow_pos _) hunits
  have hfracx := x.fractionField_lt
  have hfracy := y.fractionField_lt
  rw [exponent, exponent] at hexp
  rw [significand, significand] at hsig
  apply eq_of_fields hsign <;> split at hsig <;> split at hsig <;> omega

end Unique

end Columnar.Binary64
