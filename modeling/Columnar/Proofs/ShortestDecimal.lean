import Columnar.Decimal.Shortest
import Columnar.Proofs.NearestDouble

/-! The shortest decimal of a double. The numbers that are rounded to it form an interval, and a
decimal of few digits in the interval has a point of the grid of so many digits beside it that is at
least as near to the double. So the first grid with a point in the interval has the fewest digits,
and its nearest point is the nearest decimal of so many digits. On the grid of seventeen digits the
interval is wider than the distance of two points. -/

namespace Columnar.Decimal

open Binary64 (UpTo)

theorem lt_pow_digitCount (n : Nat) : n < 10 ^ digitCount n := by
  fun_induction digitCount n with
  | case1 n h => omega
  | case2 n h ih =>
    rw [pow_succ]
    omega

theorem pow_digitCount_le {n : Nat} (h : 0 < n) : 10 ^ digitCount n ≤ 10 * n := by
  fun_induction digitCount n with
  | case1 n _ => omega
  | case2 n hten ih =>
    have := ih (by omega)
    rw [pow_succ]
    omega

section LeadingPower

variable {num den : Nat}

theorem quotient_digits (hd : 0 < den) (h : den ≤ num) :
    10 ^ digitCount (num / den) * den ≤ 10 * num ∧ num < 10 ^ digitCount (num / den) * den := by
  refine ⟨?_, (Nat.div_lt_iff_lt_mul hd).1 (lt_pow_digitCount _)⟩
  calc 10 ^ digitCount (num / den) * den ≤ 10 * (num / den) * den :=
        Nat.mul_le_mul_right _ (pow_digitCount_le (Nat.div_pos h hd))
    _ = 10 * (num / den * den) := Nat.mul_assoc _ _ _
    _ ≤ 10 * num := Nat.mul_le_mul_left _ (Nat.div_mul_le_self _ _)

theorem inverse_digits (hn : 0 < num) (h : num < den) :
    let d := digitCount ((num + den - 1) / num - 1)
    den ≤ num * 10 ^ d ∧ num * 10 ^ d < 10 * den := by
  intro d
  have hup : den ≤ (num + den - 1) / num * num := by
    have := Nat.lt_div_mul_add (a := num + den - 1) hn
    omega
  have hdown : (num + den - 1) / num * num ≤ num + den - 1 := Nat.div_mul_le_self _ _
  obtain ⟨c, hc⟩ : ∃ c, (num + den - 1) / num = c + 2 := by
    refine ⟨(num + den - 1) / num - 2, ?_⟩
    have := (Nat.le_div_iff_mul_le hn).2 (show 2 * num ≤ num + den - 1 by omega)
    omega
  have hlt := lt_pow_digitCount (c + 1)
  have hge := pow_digitCount_le (Nat.succ_pos c)
  have hd : d = digitCount (c + 1) := by
    rw [show d = digitCount ((num + den - 1) / num - 1) from rfl, hc]
    rfl
  rw [hc] at hup hdown
  rw [hd]
  refine ⟨?_, ?_⟩
  · calc den ≤ (c + 2) * num := hup
      _ ≤ 10 ^ digitCount (c + 1) * num := Nat.mul_le_mul_right _ hlt
      _ = num * 10 ^ digitCount (c + 1) := Nat.mul_comm _ _
  · calc num * 10 ^ digitCount (c + 1) ≤ num * (10 * (c + 1)) := Nat.mul_le_mul_left _ hge
      _ = 10 * ((c + 1) * num) := by ring
      _ < 10 * den := by
        rw [Nat.add_mul] at hdown ⊢
        omega

theorem leadingPower_spec (hn : 0 < num) (hd : 0 < den) :
    (10 : ℚ) ^ leadingPower num den ≤ 10 * (num / den) ∧
      (num / den : ℚ) < 10 ^ leadingPower num den := by
  have hdq : (0 : ℚ) < den := Nat.cast_pos.2 hd
  rw [mul_div_assoc', le_div_iff₀ hdq, div_lt_iff₀ hdq, leadingPower]
  split
  · rename_i hle
    rw [zpow_natCast]
    exact_mod_cast quotient_digits hd hle
  · rename_i hlt
    obtain ⟨hle, hlt⟩ := inverse_digits hn (Nat.lt_of_not_le hlt)
    generalize digitCount ((num + den - 1) / num - 1) = d at hle hlt
    have hpow : (0 : ℚ) < 10 ^ d := by positivity
    rw [zpow_sub₀ (by decide), zpow_one, zpow_natCast, div_mul_eq_mul_div, div_le_iff₀ hpow,
      lt_div_iff₀ hpow]
    refine ⟨?_, by exact_mod_cast hlt⟩
    calc (10 * den : ℚ) ≤ 10 * (num * 10 ^ d) :=
          mul_le_mul_of_nonneg_left (by exact_mod_cast hle) (by decide)
      _ = 10 * num * 10 ^ d := (mul_assoc _ _ _).symm

end LeadingPower

section Scaled

variable {num den : Nat} (hd : 0 < den) (unit : ℤ)

include hd

theorem scaled_pos : 0 < (scaled num den unit).2 :=
  Nat.mul_pos hd (Nat.pow_pos (by decide))

theorem scaled_div :
    ((scaled num den unit).1 : ℚ) / (scaled num den unit).2 * 10 ^ unit = num / den := by
  have hdq : (den : ℚ) ≠ 0 := Nat.cast_ne_zero.2 hd.ne'
  simp only [scaled, Nat.pow_eq, Nat.cast_mul, Nat.cast_pow, Nat.cast_ofNat]
  obtain ⟨k, rfl | rfl⟩ := unit.eq_nat_or_neg
  · simp only [Int.toNat_natCast, Int.toNat_neg_natCast, zpow_natCast]
    field_simp
  · simp only [Int.toNat_natCast, Int.toNat_neg_natCast, neg_neg, zpow_neg, zpow_natCast]
    field_simp

theorem scaled_le_iff (n : Nat) :
    (scaled num den unit).1 ≤ n * (scaled num den unit).2 ↔ (num / den : ℚ) ≤ n * 10 ^ unit := by
  rw [← scaled_div hd unit, mul_le_mul_iff_of_pos_right (zpow_pos (by decide) _),
    div_le_iff₀ (Nat.cast_pos.2 (scaled_pos hd unit))]
  exact_mod_cast Iff.rfl

theorem le_scaled_iff (n : Nat) :
    n * (scaled num den unit).2 ≤ (scaled num den unit).1 ↔ (n * 10 ^ unit : ℚ) ≤ num / den := by
  rw [← scaled_div hd unit, mul_le_mul_iff_of_pos_right (zpow_pos (by decide) _),
    le_div_iff₀ (Nat.cast_pos.2 (scaled_pos hd unit))]
  exact_mod_cast Iff.rfl

end Scaled

namespace Interval

def Contains (i : Interval) (q : ℚ) : Prop :=
  UpTo i.closed (i.below / i.den) q ∧ UpTo i.closed q (i.above / i.den)

def middle (i : Interval) : ℚ := i.value / i.den

variable {i : Interval} {q r : ℚ}

theorem Contains.convex (hq : i.Contains q) (hr : i.Contains r) {p : ℚ} (h : q ≤ p)
    (h' : p ≤ r) : i.Contains p :=
  ⟨hq.1.trans_le h, .le_trans h' hr.2⟩

theorem upTo_iff {closed : Bool} {a b : ℚ} :
    UpTo closed a b ↔ if closed then a ≤ b else a < b := by
  cases closed <;> simp [UpTo, le_iff_lt_or_eq]

theorem holds_iff (hd : 0 < i.den) (n : Nat) (unit : ℤ) :
    i.holds n unit = true ↔ i.Contains (n * 10 ^ unit) := by
  rw [Contains, upTo_iff, upTo_iff, holds]
  split
  · rw [Bool.and_eq_true, decide_eq_true_eq, decide_eq_true_eq, scaled_le_iff hd, le_scaled_iff hd]
  · rw [Bool.and_eq_true, decide_eq_true_eq, decide_eq_true_eq, ← not_le, ← not_le,
      le_scaled_iff hd, scaled_le_iff hd, not_le, not_le]

def floor (i : Interval) (unit : ℤ) : Nat :=
  (scaled i.value i.den unit).1 / (scaled i.value i.den unit).2

section Grid

variable (hd : 0 < i.den) (hmid : i.Contains i.middle) {unit : ℤ} {n m : Nat}

include hd

theorem floor_le : (i.floor unit * 10 ^ unit : ℚ) ≤ i.middle := by
  rw [middle, ← le_scaled_iff hd]
  exact Nat.div_mul_le_self _ _

theorem lt_floor_succ : i.middle < ((i.floor unit + 1 : Nat) * 10 ^ unit : ℚ) := by
  rw [middle, ← not_le, ← le_scaled_iff hd, not_le]
  exact (Nat.div_lt_iff_lt_mul (scaled_pos hd unit)).1 (Nat.lt_succ_self _)

theorem nearer_floor_iff :
    2 * ((scaled i.value i.den unit).1 % (scaled i.value i.den unit).2) <
        (scaled i.value i.den unit).2 ↔
      i.middle - i.floor unit * 10 ^ unit < (i.floor unit + 1 : Nat) * 10 ^ unit - i.middle := by
  have hpos : (0 : ℚ) < (scaled i.value i.den unit).2 := Nat.cast_pos.2 (scaled_pos hd unit)
  have hpow : (0 : ℚ) < 10 ^ unit := zpow_pos (by decide) _
  have hsplit := Nat.div_add_mod (scaled i.value i.den unit).1 (scaled i.value i.den unit).2
  rw [middle, ← scaled_div hd unit, floor]
  generalize (scaled i.value i.den unit).1 = num at hsplit
  generalize (scaled i.value i.den unit).2 = den at hpos hsplit
  have hcast : ((num / den : Nat) + 1 : Nat) * 10 ^ unit - num / den * 10 ^ unit -
      (num / den * 10 ^ unit - (num / den : Nat) * 10 ^ unit) =
        ((2 * (den * (num / den : Nat)) + den : Nat) - (2 * num : Nat)) *
          ((10 : ℚ) ^ unit / den) := by
    push_cast
    field_simp
    ring
  rw [← sub_pos (b := (_ : ℚ)), hcast, mul_pos_iff_of_pos_right (div_pos hpow hpos), sub_pos,
    Nat.cast_lt]
  omega

theorem nearest?_cases (unit : ℤ) :
    (i.nearest? unit = none ∧ ¬i.Contains (i.floor unit * 10 ^ unit) ∧
      ¬i.Contains ((i.floor unit + 1 : Nat) * 10 ^ unit)) ∨
    (i.nearest? unit = some (i.floor unit) ∧ i.Contains (i.floor unit * 10 ^ unit) ∧
      (i.Contains ((i.floor unit + 1 : Nat) * 10 ^ unit) →
        i.middle - i.floor unit * 10 ^ unit ≤ (i.floor unit + 1 : Nat) * 10 ^ unit - i.middle)) ∨
    (i.nearest? unit = some (i.floor unit + 1) ∧
      i.Contains ((i.floor unit + 1 : Nat) * 10 ^ unit) ∧
      (i.Contains (i.floor unit * 10 ^ unit) →
        (i.floor unit + 1 : Nat) * 10 ^ unit - i.middle ≤ i.middle - i.floor unit * 10 ^ unit)) := by
  have hnear := @nearer_floor_iff i hd unit
  simp only [← holds_iff hd]
  rw [nearest?]
  rcases hsc : scaled i.value i.den unit with ⟨num, den⟩
  have hfloor : num / den = i.floor unit := by rw [floor, hsc]
  rw [hsc] at hnear
  simp only [hfloor]
  cases hl : i.holds (i.floor unit) unit <;> cases hu : i.holds (i.floor unit + 1) unit
  · exact .inl ⟨rfl, Bool.false_ne_true, Bool.false_ne_true⟩
  · exact .inr (.inr ⟨rfl, rfl, fun h => absurd h Bool.false_ne_true⟩)
  · exact .inr (.inl ⟨rfl, rfl, fun h => absurd h Bool.false_ne_true⟩)
  · by_cases hlt : 2 * (num % den) < den
    · rw [if_pos hlt]
      exact .inr (.inl ⟨rfl, rfl, fun _ => (hnear.1 hlt).le⟩)
    · rw [if_neg hlt]
      exact .inr (.inr ⟨rfl, rfl, fun _ => not_lt.1 (mt hnear.2 hlt)⟩)

theorem nearest?_le (h : i.nearest? unit = some n) : n ≤ i.floor unit + 1 := by
  rcases nearest?_cases hd unit with ⟨hnone, -⟩ | ⟨hsome, -⟩ | ⟨hsome, -⟩
  · rw [h] at hnone
    cases hnone
  · rw [Option.some.inj (h.symm.trans hsome)]
    exact Nat.le_succ _
  · rw [Option.some.inj (h.symm.trans hsome)]

include hmid

theorem contains_beside (h : i.Contains (m * 10 ^ unit)) :
    (m * 10 ^ unit ≤ (i.floor unit * 10 ^ unit : ℚ) ∧ i.Contains (i.floor unit * 10 ^ unit)) ∨
      ((i.floor unit + 1 : Nat) * 10 ^ unit ≤ (m * 10 ^ unit : ℚ) ∧
        i.Contains ((i.floor unit + 1 : Nat) * 10 ^ unit)) := by
  have hpow : (0 : ℚ) ≤ 10 ^ unit := (zpow_pos (by decide) _).le
  rcases Nat.lt_or_ge (i.floor unit) m with hlt | hge
  · have hle := mul_le_mul_of_nonneg_right (Nat.cast_le (α := ℚ).2 (Nat.succ_le_of_lt hlt)) hpow
    exact .inr ⟨hle, hmid.convex h (lt_floor_succ hd).le hle⟩
  · have hle := mul_le_mul_of_nonneg_right (Nat.cast_le (α := ℚ).2 hge) hpow
    exact .inl ⟨hle, h.convex hmid hle (floor_le hd)⟩

theorem nearest?_eq_none (h : i.nearest? unit = none) (m : Nat) :
    ¬i.Contains (m * 10 ^ unit) := by
  intro hm
  rcases nearest?_cases hd unit with ⟨-, hl, hu⟩ | ⟨hsome, -⟩ | ⟨hsome, -⟩
  · rcases contains_beside hd hmid hm with ⟨-, hc⟩ | ⟨-, hc⟩
    · exact hl hc
    · exact hu hc
  · rw [h] at hsome
    cases hsome
  · rw [h] at hsome
    cases hsome

theorem nearest?_eq_some (h : i.nearest? unit = some n) :
    i.Contains (n * 10 ^ unit) ∧ ∀ m : Nat, i.Contains (m * 10 ^ unit) →
      |(n * 10 ^ unit : ℚ) - i.middle| ≤ |m * 10 ^ unit - i.middle| := by
  have hle := @floor_le i hd unit
  have hlt := @lt_floor_succ i hd unit
  rcases nearest?_cases hd unit with ⟨hnone, -⟩ | ⟨hsome, hl, hnear⟩ | ⟨hsome, hu, hnear⟩
  · rw [h] at hnone
    cases hnone
  · obtain rfl := Option.some.inj (h.symm.trans hsome)
    refine ⟨hl, fun m hm => ?_⟩
    rw [abs_of_nonpos (sub_nonpos.2 hle)]
    rcases contains_beside hd hmid hm with ⟨hm, -⟩ | ⟨hm, hu⟩
    · rw [abs_of_nonpos (sub_nonpos.2 (hm.trans hle))]
      linarith
    · have := hnear hu
      rw [abs_of_nonneg (sub_nonneg.2 (hlt.le.trans hm))]
      linarith
  · obtain rfl := Option.some.inj (h.symm.trans hsome)
    refine ⟨hu, fun m hm => ?_⟩
    rw [abs_of_nonneg (sub_nonneg.2 hlt.le)]
    rcases contains_beside hd hmid hm with ⟨hm, hl⟩ | ⟨hm, -⟩
    · have := hnear hl
      rw [abs_of_nonpos (sub_nonpos.2 (hm.trans hle))]
      linarith
    · rw [abs_of_nonneg (sub_nonneg.2 (hlt.le.trans hm))]
      linarith

end Grid

end Interval

/-- A decimal with at most `k` digits. -/
def HasDigits (k : Nat) (q : ℚ) : Prop := ∃ (n : Nat) (unit : ℤ), n < 10 ^ k ∧ q = n * 10 ^ unit

theorem HasDigits.mono {j k : Nat} {q : ℚ} (h : HasDigits j q) (hle : j ≤ k) : HasDigits k q := by
  obtain ⟨n, unit, hlt, rfl⟩ := h
  exact ⟨n, unit, hlt.trans_le (Nat.pow_le_pow_right (by decide) hle), rfl⟩

theorem zpow_add_natCast (unit : ℤ) (k : Nat) : (10 : ℚ) ^ (unit + k) = 10 ^ k * 10 ^ unit := by
  rw [zpow_add₀ (by decide), zpow_natCast, mul_comm]

theorem zpow_point (point : ℤ) (k : Nat) : (10 : ℚ) ^ k * 10 ^ (point - k) = 10 ^ point := by
  rw [← zpow_add_natCast, sub_add_cancel]

theorem hasDigits_of_le {point : ℤ} {k n : Nat} (hk : k ≠ 0) (h : n ≤ 10 ^ k) :
    HasDigits k (n * 10 ^ (point - k)) := by
  rcases h.lt_or_eq with hlt | rfl
  · exact ⟨n, point - k, hlt, rfl⟩
  · -- The last point of a grid carries into one more digit, and is a power of ten.
    refine ⟨1, point, Nat.one_lt_pow hk (by decide), ?_⟩
    rw [Nat.cast_pow, Nat.cast_ofNat, zpow_point, Nat.cast_one, one_mul]

namespace Interval

variable {i : Interval} {point : ℤ}

theorem floor_lt (hd : 0 < i.den) {k : Nat} (h : i.middle < 10 ^ point) :
    i.floor (point - k) < 10 ^ k := by
  have hlt := (@floor_le i hd (point - k)).trans_lt h
  rw [← zpow_point point k] at hlt
  exact_mod_cast lt_of_mul_lt_mul_right hlt (zpow_pos (by decide) _).le

section Digits

variable (hmid : i.Contains i.middle) (hpoint : (10 : ℚ) ^ point ≤ 10 * i.middle)

include hmid hpoint

/-- A decimal in the interval has a point of the grid of its digits beside it, if it is not on that
grid itself: it is then below all numbers of so many digits, and the least of them is nearer. -/
theorem exists_point {k : Nat} {q : ℚ} (hk : k ≠ 0) (hq : HasDigits k q) (hin : i.Contains q) :
    ∃ m : Nat, i.Contains (m * 10 ^ (point - k)) ∧
      |m * 10 ^ (point - k) - i.middle| ≤ |q - i.middle| := by
  obtain ⟨n, unit, hlt, rfl⟩ := hq
  by_cases hle : point - k ≤ unit
  · obtain ⟨j, hj⟩ := Int.le.dest hle
    refine ⟨n * 10 ^ j, ?_⟩
    have hsame : ((n * 10 ^ j : Nat) : ℚ) * 10 ^ (point - k) = n * 10 ^ unit := by
      rw [← hj, zpow_add_natCast]
      push_cast
      ring
    rw [hsame]
    exact ⟨hin, le_rfl⟩
  · obtain ⟨j, rfl⟩ := Nat.exists_eq_succ_of_ne_zero hk
    have hten : (10 : ℚ) ^ point / 10 = 10 ^ (point - 1) := by
      rw [zpow_sub_one₀ (by decide), div_eq_mul_inv]
    have hleast : (10 : ℚ) ^ j * 10 ^ (point - (j + 1 : Nat)) = 10 ^ point / 10 := by
      rw [← zpow_add_natCast, hten]
      congr 1
      omega
    have hbelow : (n : ℚ) * 10 ^ unit ≤ 10 ^ point / 10 := by
      calc (n : ℚ) * 10 ^ unit ≤ 10 ^ (j + 1) * 10 ^ unit :=
            mul_le_mul_of_nonneg_right (by exact_mod_cast hlt.le) (zpow_pos (by decide) _).le
        _ = 10 ^ (unit + (j + 1 : Nat)) := (zpow_add_natCast _ _).symm
        _ ≤ 10 ^ (point - 1) := zpow_le_zpow_right₀ (by decide) (by omega)
        _ = 10 ^ point / 10 := hten.symm
    have habove : (10 : ℚ) ^ point / 10 ≤ i.middle := by linarith
    refine ⟨10 ^ j, ?_⟩
    rw [Nat.cast_pow, Nat.cast_ofNat, hleast]
    refine ⟨hin.convex hmid hbelow habove, ?_⟩
    rw [abs_of_nonpos (sub_nonpos.2 habove), abs_of_nonpos (sub_nonpos.2 (hbelow.trans habove))]
    linarith

end Digits

theorem search_eq {d k more : Nat} {n : Nat} (hle : d ≤ k) (hlt : k < d + more)
    (hnone : ∀ j, d ≤ j → j < k → i.nearest? (point - j) = none)
    (hsome : i.nearest? (point - k) = some n) :
    i.search point d more = if n = 10 ^ k then ⟨1, point⟩ else ⟨n, point - k⟩ := by
  induction more generalizing d with
  | zero => omega
  | succ more ih =>
    rw [search]
    rcases hle.eq_or_lt with rfl | hlt'
    · rw [hsome]
      rfl
    · rw [hnone d le_rfl hlt']
      exact ih hlt' (by omega) fun j hj => hnone j (by omega)

theorem two_pow_sub_div (e b : Nat) :
    ((2 ^ (e - b) : Nat) : ℚ) / (2 ^ (b - e) : Nat) = 2 ^ e * 2 ^ (-(b : ℤ)) := by
  have hpow : (2 : ℚ) ^ (e - b) * 2 ^ b = 2 ^ e * 2 ^ (b - e) := by
    rw [← pow_add, ← pow_add]
    congr 1
    omega
  rw [Nat.cast_pow, Nat.cast_pow, Nat.cast_ofNat, div_eq_iff (by positivity), mul_right_comm,
    ← hpow, zpow_neg, zpow_natCast, mul_assoc, mul_inv_cancel₀ (by positivity), mul_one]

section Of

variable (x : Binary64)

theorem scale_div : ((Nat.pow 2 (x.exponent - 1074) : Nat) : ℚ) / x.denominator =
    2 ^ x.exponent * Binary64.unit :=
  two_pow_sub_div x.exponent 1074

theorem den_of_pos : 0 < (of x).den := Nat.mul_pos (by decide) x.denominator_pos

theorem of_div (n : Nat) : ((n * Nat.pow 2 (x.exponent - 1074) : Nat) : ℚ) / (of x).den =
    n / 4 * (2 ^ x.exponent * Binary64.unit) := by
  rw [← scale_div]
  simp only [of, Nat.cast_mul, Nat.cast_ofNat]
  rw [div_mul_div_comm]

theorem middle_of : (of x).middle = x.absValue := by
  have h := of_div x (4 * x.significand)
  rw [x.absValue_eq, Binary64.units]
  refine h.trans ?_
  push_cast
  ring

theorem above_of : 2 * ((of x).above / (of x).den : ℚ) = x.twiceMiddleAbove := by
  have h := of_div x (4 * x.significand + 2)
  rw [Binary64.twiceMiddleAbove, Binary64.stepAbove, Binary64.units]
  refine (congrArg (2 * ·) h).trans ?_
  push_cast
  ring

theorem below_of (hsig : x.significand ≠ 0) :
    2 * ((of x).below / (of x).den : ℚ) = x.twiceMiddleBelow := by
  have h := of_div x (4 * x.significand - if x.Narrow then 1 else 2)
  have hle := x.stepBelow_le_units hsig
  have hfour : (if x.Narrow then 1 else 2) ≤ 4 * x.significand := by split <;> omega
  rw [Binary64.twiceMiddleBelow, Nat.cast_sub (by omega), Binary64.stepBelow, Binary64.units]
  refine (congrArg (2 * ·) h).trans ?_
  rw [Nat.cast_sub hfour]
  by_cases hnarrow : x.Narrow
  · obtain ⟨k, hk⟩ : ∃ k, x.exponent = k + 1 := by
      have hfield := hnarrow.2
      exact ⟨x.exponent - 1, by rw [Binary64.exponent]; omega⟩
    rw [if_pos hnarrow, if_pos hnarrow, hk, Nat.add_sub_cancel]
    push_cast
    ring
  · rw [if_neg hnarrow, if_neg hnarrow]
    push_cast
    ring

theorem upTo_two_mul {closed : Prop} {a b : ℚ} : UpTo closed (2 * a) (2 * b) ↔ UpTo closed a b := by
  rw [UpTo, UpTo, mul_lt_mul_iff_of_pos_left (by decide), mul_right_inj' (by decide)]

theorem contains_of_iff {q : ℚ} (hsig : x.significand ≠ 0) : (of x).Contains q ↔ x.Between q := by
  have hclosed : ((of x).closed = true) = (x.significand % 2 = 0) := decide_eq_true_eq
  rw [Contains, Binary64.Between, hclosed, ← below_of x hsig, ← above_of x, upTo_two_mul,
    upTo_two_mul]

theorem contains_middle_of (hf : x.isFinite = true) (hsig : x.significand ≠ 0) :
    (of x).Contains (of x).middle := by
  rw [contains_of_iff x hsig, middle_of, ← Binary64.nearestTo_iff hf hsig]
  exact x.nearestTo_absValue

theorem nearest?_ne_none (hf : x.isFinite = true) (hsig : x.significand ≠ 0) {unit : ℤ}
    (hfine : (10 : ℚ) ^ unit * 10 ^ 16 ≤ x.absValue) : (of x).nearest? unit ≠ none := by
  intro hnone
  have hd := den_of_pos x
  have hmid := contains_middle_of x hf hsig
  -- Neither point around the middle is in the interval, so it is not wider than the grid.
  have hfloor := nearest?_eq_none hd hmid hnone ((of x).floor unit)
  have hsucc := nearest?_eq_none hd hmid hnone ((of x).floor unit + 1)
  have hbelow : ((of x).floor unit * 10 ^ unit : ℚ) ≤ (of x).below / (of x).den := by
    by_contra h
    exact hfloor ⟨.inl (not_le.1 h), .le_trans (floor_le hd) hmid.2⟩
  have habove : ((of x).above / (of x).den : ℚ) ≤ ((of x).floor unit + 1 : Nat) * 10 ^ unit := by
    by_contra h
    exact hsucc ⟨hmid.1.trans_le (lt_floor_succ hd).le, .inl (not_le.1 h)⟩
  have hwidth := Binary64.absValue_lt_width hsig
  rw [← above_of, ← below_of x hsig] at hwidth
  have hpow : (0 : ℚ) < 10 ^ unit := zpow_pos (by decide) _
  push_cast at habove
  linarith

theorem seventeen_digits (hf : x.isFinite = true) (hsig : x.significand ≠ 0) {point : ℤ}
    (hpoint : (10 : ℚ) ^ point ≤ 10 * x.absValue) :
    (of x).nearest? (point - (17 : Nat)) ≠ none := by
  apply nearest?_ne_none x hf hsig
  have hgrid : (10 : ℚ) ^ (point - (17 : Nat)) * 10 ^ 17 = 10 ^ point := by
    rw [zpow_sub₀ (by decide), zpow_natCast, div_mul_cancel₀ _ (by positivity)]
  linarith

end Of

end Interval

/-- `q` is rounded to `x`; no decimal with fewer digits is, and of those with as many none is nearer
to `x`. -/
structure Shortest (x : Binary64) (q : ℚ) : Prop where
  rounded : x.NearestTo q
  fewest : ∀ k r, HasDigits k r → x.NearestTo r → HasDigits k q
  closest : ∀ k r, HasDigits k r → x.NearestTo r → (∀ j, HasDigits j q → k ≤ j) →
    |q - x.absValue| ≤ |r - x.absValue|

def Digits.value (d : Digits) : ℚ := d.digits * 10 ^ d.unit

theorem value_of_point (point : ℤ) (k n : Nat) :
    Digits.value (if n = 10 ^ k then ⟨1, point⟩ else ⟨n, point - k⟩) =
      n * 10 ^ (point - (k : ℤ)) := by
  split
  · rename_i hn
    rw [hn, Nat.cast_pow, Nat.cast_ofNat, zpow_point, Digits.value, Nat.cast_one, one_mul]
  · rfl

section Search

variable {x : Binary64} (hsig : x.significand ≠ 0)

include hsig

theorem absValue_bounds :
    let point := leadingPower (Interval.of x).value (Interval.of x).den
    (10 : ℚ) ^ point ≤ 10 * x.absValue ∧ x.absValue < 10 ^ point := by
  have hpos : 0 < (Interval.of x).value :=
    Nat.mul_pos (Nat.mul_pos (by decide) (Nat.pos_of_ne_zero hsig)) (Nat.pow_pos (by decide))
  rw [← Interval.middle_of]
  exact leadingPower_spec hpos (Interval.den_of_pos x)

theorem ne_zero_of_hasDigits {k : Nat} {q : ℚ} (h : HasDigits k q) (hq : x.NearestTo q) :
    k ≠ 0 := by
  rintro rfl
  obtain ⟨n, unit, hlt, rfl⟩ := h
  obtain rfl : n = 0 := by omega
  rw [Nat.cast_zero, zero_mul] at hq
  exact Binary64.not_nearestTo_zero hsig hq

variable (hf : x.isFinite = true)

include hf

theorem exists_first_grid : ∃ (point : ℤ) (k n : Nat), k ≠ 0 ∧
    (10 : ℚ) ^ point ≤ 10 * x.absValue ∧ x.absValue < 10 ^ point ∧
    (∀ j : Nat, j ≠ 0 → j < k → (Interval.of x).nearest? (point - j) = none) ∧
    (Interval.of x).nearest? (point - k) = some n ∧
    shortest x = if n = 10 ^ k then ⟨1, point⟩ else ⟨n, point - k⟩ := by
  obtain ⟨hle, hlt⟩ := absValue_bounds hsig
  let point := leadingPower (Interval.of x).value (Interval.of x).den
  have hex : ∃ k : Nat, k ≠ 0 ∧ (Interval.of x).nearest? (point - k) ≠ none :=
    ⟨17, by decide, Interval.seventeen_digits x hf hsig hle⟩
  obtain ⟨hk, hfound⟩ := Nat.find_spec hex
  obtain ⟨n, hn⟩ := Option.ne_none_iff_exists'.1 hfound
  have hnone : ∀ j : Nat, j ≠ 0 → j < Nat.find hex →
      (Interval.of x).nearest? (point - j) = none := by
    intro j hj hlt
    by_contra h
    exact Nat.find_min hex hlt ⟨hj, h⟩
  have hlast : Nat.find hex ≤ 17 :=
    Nat.find_min' hex ⟨by decide, Interval.seventeen_digits x hf hsig hle⟩
  refine ⟨point, Nat.find hex, n, hk, hle, hlt, hnone, hn, ?_⟩
  exact Interval.search_eq (by omega) (by omega) (fun j hj => hnone j (by omega)) hn

theorem nearestTo_iff_contains {q : ℚ} : x.NearestTo q ↔ (Interval.of x).Contains q := by
  rw [Interval.contains_of_iff x hsig, Binary64.nearestTo_iff hf hsig]

theorem shortest_value : Shortest x (shortest x).value := by
  obtain ⟨point, k, n, hk, hle, hlt, hnone, hn, hshortest⟩ := exists_first_grid hsig hf
  have hd := Interval.den_of_pos x
  have hmid := Interval.contains_middle_of x hf hsig
  rw [← Interval.middle_of] at hle hlt
  obtain ⟨hin, hnearest⟩ := Interval.nearest?_eq_some hd hmid hn
  rw [hshortest, value_of_point]
  -- A decimal with fewer digits would have a point beside it on a grid before.
  have hfew : ∀ j r, HasDigits j r → x.NearestTo r → k ≤ j := by
    intro j r hj hr
    by_contra hlt
    have hj0 := ne_zero_of_hasDigits hsig hj hr
    rw [nearestTo_iff_contains hsig hf] at hr
    obtain ⟨m, hm, -⟩ := Interval.exists_point hmid hle hj0 hj hr
    exact Interval.nearest?_eq_none hd hmid (hnone j hj0 (not_le.1 hlt)) m hm
  have hdigits : HasDigits k (n * 10 ^ (point - (k : ℤ))) :=
    hasDigits_of_le hk ((Interval.nearest?_le hd hn).trans (Interval.floor_lt hd hlt))
  refine ⟨(nearestTo_iff_contains hsig hf).2 hin, ?_, ?_⟩
  · intro j r hj hr
    exact hdigits.mono (hfew j r hj hr)
  · intro j r hj hr hleast
    obtain rfl := (hleast k hdigits).antisymm (hfew j r hj hr)
    rw [nearestTo_iff_contains hsig hf] at hr
    obtain ⟨m, hm, hnear⟩ := Interval.exists_point hmid hle hk hj hr
    rw [← Interval.middle_of]
    exact (hnearest m hm).trans hnear

theorem shortest_digits : (shortest x).digits % 10 ≠ 0 := by
  obtain ⟨point, k, n, hk, -, hlt, hnone, hn, hshortest⟩ := exists_first_grid hsig hf
  have hd := Interval.den_of_pos x
  have hmid := Interval.contains_middle_of x hf hsig
  rw [← Interval.middle_of] at hlt
  have hle := (Interval.nearest?_le hd hn).trans (Interval.floor_lt hd hlt)
  obtain ⟨hin, -⟩ := Interval.nearest?_eq_some hd hmid hn
  rw [hshortest]
  split
  · exact Nat.one_ne_zero
  · rename_i hne
    -- A zero at the end would leave a point of the grid before.
    intro hzero
    obtain ⟨m, rfl⟩ : 10 ∣ n := Nat.dvd_of_mod_eq_zero hzero
    obtain ⟨j, rfl⟩ := Nat.exists_eq_succ_of_ne_zero hk
    have hsame : ((10 * m : Nat) : ℚ) * 10 ^ (point - (j + 1 : Nat)) = m * 10 ^ (point - j) := by
      have hstep : point - j = point - (j + 1 : Nat) + (1 : Nat) := by omega
      rw [hstep, zpow_add_natCast]
      push_cast
      ring
    rw [hsame] at hin
    by_cases hj : j = 0
    · obtain rfl : m = 0 := by
        subst hj
        omega
      rw [Nat.cast_zero, zero_mul, ← nearestTo_iff_contains hsig hf] at hin
      exact Binary64.not_nearestTo_zero hsig hin
    · exact Interval.nearest?_eq_none hd hmid (hnone j hj (Nat.lt_succ_self j)) m hin

end Search

end Columnar.Decimal
