import Mathlib
import Columnar.Scan.Bucket

/-! Doubles as numbers. The bits of a double stand for an infinity, for no number, for a zero, or
for a mantissa times a power of two, where all numbers but the smallest have a mantissa of 53 bits.
Such a number is the same after it was put into bits again, and a sign is never lost on the way. -/

open Float.Model Float.Model.UnpackedFloat

namespace Columnar.Binary64

structure Fits (mantissa : Nat) (exponent : Int) : Prop where
  lt : mantissa < 2 ^ 53
  ge : -1074 ≤ exponent
  le : exponent ≤ 971
  full : 2 ^ 52 ≤ mantissa ∨ exponent = -1074

def unpacked (x : Binary64) : UnpackedFloat := UnpackedFloat.unpack .binary64 x.bits.toBitVec

def sign (x : Binary64) : Sign := if x.isNegative then .negative else .positive

section Fields

variable (x : Binary64)

theorem toNat_unpackExponent :
    (@unpackExponent .binary64 x.bits.toBitVec).toNat = x.exponentField := by
  simp [unpackExponent, exponentField]

theorem toNat_unpackMantissa :
    (@unpackMantissa .binary64 x.bits.toBitVec).toNat = x.fractionField := by
  simp [unpackMantissa, fractionField]

theorem ofBitVec_unpackSign : Sign.ofBitVec (@unpackSign .binary64 x.bits.toBitVec) = x.sign := by
  have hlt := x.bits.toNat_lt
  have hbit : @unpackSign .binary64 x.bits.toBitVec = 0#1 ↔ x.bits.toNat / 2 ^ 63 = 0 := by
    simp [unpackSign, ← BitVec.toNat_inj, Nat.shiftRight_eq_div_pow]
    omega
  simp only [Sign.ofBitVec, sign, hbit, isNegative_iff]
  split <;> split <;> first | rfl | omega

theorem unpacked_eq : x.unpacked =
    if x.exponentField = 2047 then
      if x.fractionField = 0 then .infinity x.sign else .notANumber
    else if h : x.significand = 0 then .zero x.sign
    else .finite x.sign x.significand (x.exponent - 1074) (Nat.pos_of_ne_zero h) := by
  have hall : @unpackExponent .binary64 x.bits.toBitVec = -1#_ ↔ x.exponentField = 2047 := by
    rw [← BitVec.toNat_inj, toNat_unpackExponent]
    rfl
  have hnone : @unpackExponent .binary64 x.bits.toBitVec = 0#_ ↔ x.exponentField = 0 := by
    rw [← BitVec.toNat_inj, toNat_unpackExponent]
    rfl
  have hzero : @unpackMantissa .binary64 x.bits.toBitVec = 0#_ ↔ x.fractionField = 0 := by
    rw [← BitVec.toNat_inj, toNat_unpackMantissa]
    rfl
  unfold unpacked UnpackedFloat.unpack
  simp only [hall, hnone, hzero, ofBitVec_unpackSign, toNat_unpackExponent, toNat_unpackMantissa]
  split
  · rfl
  · split
    · rename_i h
      simp only [significand, exponent, h, if_true]
      split <;> rfl
    · rename_i h
      have hs : x.significand = 2 ^ 52 + x.fractionField := by
        rw [significand, if_neg h]
        rfl
      have happend : (1#1 ++ @unpackMantissa .binary64 x.bits.toBitVec).toNat = x.significand := by
        rw [BitVec.toNat_append, ← Nat.shiftLeft_add_eq_or_of_lt (BitVec.isLt _),
          toNat_unpackMantissa, hs]
        rfl
      rw [dif_neg (by omega)]
      simp only [happend]
      congr 1
      simp [Format.exponentBias, exponent]
      omega

end Fields

variable {x : Binary64} {s : Sign} {m : Nat} {e : Int} {hm : 0 < m}

theorem isFinite_eq_unpacked (x : Binary64) : x.isFinite = x.unpacked.isFinite := by
  rw [unpacked_eq, isFinite]
  split
  · rename_i h
    split <;> simp [h, UnpackedFloat.isFinite]
  · rename_i h
    split <;> simp [h, UnpackedFloat.isFinite]

theorem of_unpacked_finite (h : x.unpacked = .finite s m e hm) :
    x.sign = s ∧ x.significand = m ∧ x.exponent - 1074 = e ∧ Fits m e := by
  rw [unpacked_eq] at h
  split at h
  · split at h <;> cases h
  · rename_i hfield
    split at h
    · cases h
    · rename_i hsig
      injection h with hs hm he
      refine ⟨hs, hm, he, ?_⟩
      have hlt : x.exponentField < 2048 := Nat.mod_lt _ (by decide)
      rw [exponent] at he
      refine ⟨hm ▸ x.significand_lt, by omega, by omega, ?_⟩
      by_cases hzero : x.exponentField = 0
      · exact .inr (by omega)
      · rw [significand, if_neg hzero] at hm
        exact .inl (by omega)

theorem unpacked_of_fields (hfield : x.exponentField ≠ 2047) (hs : x.sign = s)
    (hsig : x.significand = m) (he : x.exponent - 1074 = e) : x.unpacked = .finite s m e hm := by
  subst hs hsig he
  rw [unpacked_eq, if_neg hfield, dif_neg hm.ne']

theorem quotient_of_unpacked (h : x.unpacked = .finite s m e hm) :
    x.numerator = m * 2 ^ e.toNat ∧ x.denominator = 2 ^ (-e).toNat := by
  obtain ⟨-, hsig, hexp, -⟩ := of_unpacked_finite h
  refine ⟨?_, ?_⟩
  · rw [numerator, hsig, show x.exponent - 1074 = e.toNat by omega]
    rfl
  · rw [denominator, show 1074 - x.exponent = (-e).toNat by omega]
    rfl

theorem of_unpacked_zero (h : x.unpacked = .zero s) : x.sign = s ∧ x.significand = 0 := by
  rw [unpacked_eq] at h
  split at h
  · split at h <;> cases h
  · split at h
    · rename_i hsig
      injection h with hs
      exact ⟨hs, hsig⟩
    · cases h

def ofUnpacked (u : UnpackedFloat) : Binary64 := ⟨.ofBitVec (UnpackedFloat.pack .binary64 u)⟩

theorem fields_of_components {exponent : BitVec 11} {fraction : BitVec 52}
    (h : x.bits.toBitVec = packComponents .binary64 s exponent fraction) :
    x.sign = s ∧ x.exponentField = exponent.toNat ∧ x.fractionField = fraction.toNat := by
  refine ⟨?_, ?_, ?_⟩
  · rw [← ofBitVec_unpackSign, h, unpackSign_packComponents, Sign.ofBitVec_toBitVec]
  · rw [← toNat_unpackExponent, h, unpackExponent_packComponents]
  · rw [← toNat_unpackMantissa, h, unpackMantissa_packComponents]

theorem ofUnpacked_finite (s : Sign) (hm : 0 < m) :
    (ofUnpacked (.finite s m e hm)).sign = s ∧
      (e ≤ 971 → (ofUnpacked (.finite s m e hm)).fractionField = m % 2 ^ 52 ∧
        (ofUnpacked (.finite s m e hm)).exponentField =
          if m.log2 = 52 then (e + 1075).toNat else 0) := by
  have hbits : (ofUnpacked (.finite s m e hm)).bits.toBitVec =
      if 2 ^ 11 ≤ (e + 1023 + 52).toNat + 1 then packedInfinity .binary64 s
      else if m.log2 + 1 = 53 then
        packComponents .binary64 s (BitVec.ofNat _ (e + 1023 + 52).toNat) (BitVec.ofNat _ m)
      else packComponents .binary64 s 0#_ (BitVec.ofNat _ m) := rfl
  split at hbits
  · obtain ⟨hsign, -⟩ := fields_of_components hbits
    exact ⟨hsign, by omega⟩
  · split at hbits
    · obtain ⟨hsign, hexp, hfrac⟩ := fields_of_components hbits
      refine ⟨hsign, fun he => ⟨hfrac, ?_⟩⟩
      rw [hexp, if_pos (by omega)]
      simp
      omega
    · obtain ⟨hsign, hexp, hfrac⟩ := fields_of_components hbits
      refine ⟨hsign, fun he => ⟨hfrac, ?_⟩⟩
      rw [hexp, if_neg (by omega)]
      rfl

theorem ofUnpacked_zero (s : Sign) : (ofUnpacked (.zero s)).unpacked = .zero s := by
  cases s <;> rfl

theorem isFinite_ofUnpacked_finite (he : e ≤ 971) :
    (ofUnpacked (.finite s m e hm)).isFinite = true := by
  obtain ⟨-, hfields⟩ := ofUnpacked_finite (e := e) s hm
  rw [isFinite, (hfields he).2]
  split <;> simp
  omega

theorem unpacked_ofUnpacked (h : Fits m e) :
    (ofUnpacked (.finite s m e hm)).unpacked = .finite s m e hm := by
  obtain ⟨hsign, hfields⟩ := ofUnpacked_finite (e := e) s hm
  obtain ⟨hfrac, hexp⟩ := hfields h.le
  have hlog : m.log2 = 52 ↔ 2 ^ 52 ≤ m := by
    have hlt : m.log2 < 53 := (Nat.log2_lt hm.ne').2 h.lt
    rw [← Nat.le_log2 hm.ne']
    omega
  have hlt := h.lt
  have hge := h.ge
  have hle := h.le
  by_cases hfull : 2 ^ 52 ≤ m
  · rw [if_pos (hlog.2 hfull)] at hexp
    apply unpacked_of_fields (by omega) hsign
    · rw [significand, if_neg (by omega), hfrac]
      omega
    · rw [exponent, hexp]
      omega
  · rw [if_neg (mt hlog.1 hfull)] at hexp
    have he : e = -1074 := h.full.resolve_left hfull
    apply unpacked_of_fields (by omega) hsign
    · rw [significand, if_pos hexp, hfrac]
      omega
    · rw [exponent, hexp, he]
      rfl

theorem unpack_toFloat (x : Binary64) : x.toFloat.toModel.unpack = x.unpacked := by
  have hpacked : x.toFloat.toModel.unpack = (ofUnpacked x.unpacked).unpacked := rfl
  rw [hpacked]
  cases h : x.unpacked with
  | infinity s => cases s <;> rfl
  | notANumber => rfl
  | zero s => exact ofUnpacked_zero s
  | finite s m e hm => exact unpacked_ofUnpacked (of_unpacked_finite h).2.2.2

theorem unpacked_neg (f : Float) : (ofFloat (-f)).unpacked = (ofFloat f).unpacked.neg := by
  have hpacked : ofFloat (-f) = ofUnpacked (ofFloat f).unpacked.neg := rfl
  rw [hpacked]
  cases h : (ofFloat f).unpacked with
  | infinity s => cases s <;> rfl
  | notANumber => rfl
  | zero s => exact ofUnpacked_zero _
  | finite s m e hm => exact unpacked_ofUnpacked (of_unpacked_finite h).2.2.2

end Columnar.Binary64
