import Mathlib.Data.Nat.Bitwise
import Mathlib.Logic.Function.Iterate
import Columnar.Checksum

/-! Why CRC-32 notices a change of up to four bytes. A step of the register is linear over exclusive
or and loses nothing, since the polynomial has its top bit set. Four bytes are as long as the
register: fed one after the other they come to the same as their word taken into the register at
once. Hence different words in one place leave different registers, whatever is before and
after them. -/

namespace Columnar.Checksum

def tap (crc : UInt32) : UInt32 := if crc.toNat % 2 = 1 then 0xEDB88320 else 0

theorem step_eq (crc : UInt32) : step crc = (crc >>> 1) ^^^ tap crc := by
  have hlow : crc &&& 1 = 1 ↔ crc.toNat % 2 = 1 := by
    rw [← UInt32.toNat_inj, UInt32.toNat_and, UInt32.toNat_one, Nat.and_one_is_mod]
  rw [step, tap]
  by_cases h : crc.toNat % 2 = 1
  · rw [if_pos (hlow.2 h), if_pos h]
  · rw [if_neg (mt hlow.1 h), if_neg h, UInt32.xor_zero]

theorem tap_xor (a b : UInt32) : tap (a ^^^ b) = tap a ^^^ tap b := by
  have hparity : (a ^^^ b).toNat % 2 = (a.toNat + b.toNat) % 2 := by
    rw [UInt32.toNat_xor, Nat.xor_mod_two_eq]
  simp only [tap, hparity]
  by_cases ha : a.toNat % 2 = 1
  · by_cases hb : b.toNat % 2 = 1
    · rw [if_neg (by omega), if_pos ha, if_pos hb, UInt32.xor_self]
    · rw [if_pos (by omega), if_pos ha, if_neg hb, UInt32.xor_zero]
  · by_cases hb : b.toNat % 2 = 1
    · rw [if_pos (by omega), if_neg ha, if_pos hb, UInt32.zero_xor]
    · rw [if_neg (by omega), if_neg ha, if_neg hb, UInt32.xor_zero]

theorem step_xor (a b : UInt32) : step (a ^^^ b) = step a ^^^ step b := by
  rw [step_eq, step_eq, step_eq, tap_xor, UInt32.shiftRight_xor]
  ac_rfl

theorem toNat_half (crc : UInt32) : (crc >>> 1).toNat = crc.toNat / 2 := by
  rw [UInt32.toNat_shiftRight, UInt32.toNat_one, Nat.one_mod, Nat.shiftRight_one]

theorem step_even {crc : UInt32} (h : crc.toNat % 2 = 0) : step crc = crc >>> 1 := by
  rw [step_eq, tap, if_neg (by omega), UInt32.xor_zero]

theorem eq_zero_of_step {crc : UInt32} (h : step crc = 0) : crc = 0 := by
  have hlt := crc.toNat_lt
  have hhalf := toNat_half crc
  rw [step_eq, UInt32.xor_eq_zero_iff] at h
  rw [h] at hhalf
  apply UInt32.toNat_inj.1
  rw [UInt32.toNat_zero]
  -- The polynomial is more than half of any register.
  by_cases hodd : crc.toNat % 2 = 1
  · rw [tap, if_pos hodd, show (0xEDB88320 : UInt32).toNat = 3988292384 from rfl] at hhalf
    omega
  · rw [tap, if_neg hodd, UInt32.toNat_zero] at hhalf
    omega

theorem step_injective : Function.Injective step := by
  intro a b h
  apply UInt32.xor_eq_zero_iff.1
  apply eq_zero_of_step
  rw [step_xor, h, UInt32.xor_self]

theorem iterate_step_xor (n : Nat) (a b : UInt32) :
    step^[n] (a ^^^ b) = step^[n] a ^^^ step^[n] b := by
  induction n generalizing a b with
  | zero => rfl
  | succ n ih => rw [Function.iterate_succ_apply, step_xor, ih, Function.iterate_succ_apply,
      Function.iterate_succ_apply]

theorem iterate_step_shift (n v : Nat) (h : 2 ^ n * v < UInt32.size) :
    step^[n] (.ofNat (2 ^ n * v)) = .ofNat v := by
  induction n with
  | zero => rw [Nat.pow_zero, Nat.one_mul, Function.iterate_zero_apply]
  | succ n ih =>
    rw [Nat.pow_succ', Nat.mul_assoc] at h ⊢
    have hword : (UInt32.ofNat (2 * (2 ^ n * v))).toNat = 2 * (2 ^ n * v) :=
      UInt32.toNat_ofNat_of_lt' h
    have hfirst : step (.ofNat (2 * (2 ^ n * v))) = .ofNat (2 ^ n * v) := by
      rw [step_even (by omega)]
      apply UInt32.toNat_inj.1
      rw [toNat_half, hword, UInt32.toNat_ofNat_of_lt' (by omega)]
      omega
    rw [Function.iterate_succ_apply, hfirst]
    exact ih (by omega)

theorem feed_eq (crc : UInt32) (b : UInt8) : feed crc b = step^[8] (crc ^^^ b.toUInt32) := rfl

theorem feed_injective (b : UInt8) : Function.Injective fun crc => feed crc b := by
  intro a c h
  exact (UInt32.xor_left_inj _).1 (step_injective.iterate 8 h)

theorem run_injective (bs : Bytes) : Function.Injective fun crc => run crc bs := by
  induction bs with
  | nil => exact Function.injective_id
  | cons b bs ih => exact ih.comp (feed_injective b)

theorem add_mul_eq_xor {b : Nat} (h : b < 256) (v : Nat) : b + 256 * v = b ^^^ 256 * v := by
  have hdiv : (b ^^^ 256 * v) / 2 ^ 8 = v := by
    rw [Nat.xor_div_two_pow, Nat.div_eq_of_lt h, Nat.mul_div_cancel_left v (by decide),
      Nat.zero_xor]
  have hmod : (b ^^^ 256 * v) % 2 ^ 8 = b := by
    rw [Nat.xor_mod_two_pow, Nat.mod_eq_of_lt h, Nat.mul_mod_right, Nat.xor_zero]
  omega

theorem value_lt_of_short {bs : Bytes} (h : bs.length ≤ 4) : Bytes.value bs < UInt32.size := by
  have hlt := Bytes.value_lt bs
  rw [Nat.pow_eq] at hlt
  exact Nat.lt_of_lt_of_le hlt (Nat.pow_le_pow_right (by decide) h)

theorem run_eq_iterate (crc : UInt32) {bs : Bytes} (h : bs.length ≤ 4) :
    run crc bs = step^[8 * bs.length] (crc ^^^ .ofNat (Bytes.value bs)) := by
  induction bs generalizing crc with
  | nil =>
    rw [Bytes.value, show UInt32.ofNat 0 = 0 from rfl, UInt32.xor_zero]
    rfl
  | cons b bs ih =>
    have hb : b.toNat < 256 := b.toNat_lt
    have hvalue : 2 ^ 8 * Bytes.value bs < UInt32.size := by
      have hlt := value_lt_of_short h
      rw [Bytes.value] at hlt
      omega
    have hword : UInt32.ofNat (Bytes.value (b :: bs)) =
        b.toUInt32 ^^^ .ofNat (2 ^ 8 * Bytes.value bs) := by
      rw [Bytes.value, add_mul_eq_xor hb, UInt32.ofNat_xor, UInt32.ofNat_uInt8ToNat]
      rfl
    have hlate : step^[8] (crc ^^^ .ofNat (Bytes.value (b :: bs))) =
        feed crc b ^^^ .ofNat (Bytes.value bs) := by
      rw [hword, ← UInt32.xor_assoc, iterate_step_xor, iterate_step_shift 8 (Bytes.value bs) hvalue,
        feed_eq]
    rw [List.length_cons, Nat.mul_succ, Function.iterate_add_apply, hlate]
    exact ih (feed crc b) (Nat.le_of_succ_le h)

theorem run_ne {before word word' after : Bytes} (hlen : word.length = word'.length)
    (hshort : word.length ≤ 4) (hne : word ≠ word') (crc : UInt32) :
    run crc (before ++ word ++ after) ≠ run crc (before ++ word' ++ after) := by
  intro h
  have hshort' : word'.length ≤ 4 := by omega
  rw [run_append, run_append, run_append, run_append] at h
  have hword : run (run crc before) word = run (run crc before) word' := run_injective after h
  rw [run_eq_iterate (run crc before) hshort, run_eq_iterate (run crc before) hshort', hlen]
    at hword
  have hvalues := (UInt32.xor_right_inj _).1 (step_injective.iterate _ hword)
  have htoNat := congrArg UInt32.toNat hvalues
  rw [UInt32.toNat_ofNat_of_lt' (value_lt_of_short hshort),
    UInt32.toNat_ofNat_of_lt' (value_lt_of_short hshort')] at htoNat
  apply hne
  rw [← Bytes.le_value word, ← Bytes.le_value word', hlen, htoNat]

def residue : UInt32 := step^[32] 0xFFFFFFFF

theorem run_eq_residue_iff {body : Bytes} {checksum : UInt32} :
    run 0xFFFFFFFF (body ++ Bytes.ofUInt32 checksum) = residue ↔ checksum = crc32 body := by
  have hlen : (Bytes.ofUInt32 checksum).length = 4 := Bytes.length_ofUInt32 checksum
  have hvalue : UInt32.ofNat (Bytes.value (Bytes.ofUInt32 checksum)) = checksum :=
    Bytes.toUInt32_ofUInt32 checksum
  rw [run_append, run_eq_iterate _ (Nat.le_of_eq hlen), hlen, hvalue, residue,
    (step_injective.iterate 32).eq_iff, crc32]
  generalize run 0xFFFFFFFF body = crc
  constructor
  · intro h
    rw [← h, ← UInt32.xor_assoc, UInt32.xor_self, UInt32.zero_xor]
  · intro h
    rw [h, ← UInt32.xor_assoc, UInt32.xor_self, UInt32.zero_xor]

example : residue = 0xDEBB20E3 := by decide +kernel

end Columnar.Checksum
