/-! Byte strings and the little-endian words stored in them. A word of `n` bytes is its value in
base 256, least digit first; `value_le` and `le_value` say that the two directions undo each other
on `n` bytes. `split?` takes a fixed number of bytes or nothing. -/

namespace Columnar

abbrev Bytes := List UInt8

namespace Bytes

def le : Nat → Nat → Bytes
  | 0, _ => []
  | n + 1, v => UInt8.ofNat v :: le n (v / 256)

def value : Bytes → Nat
  | [] => 0
  | b :: bs => b.toNat + 256 * value bs

@[simp] theorem length_le (n v : Nat) : (le n v).length = n := by
  induction n generalizing v with
  | zero => rfl
  | succ n ih => simp [le, ih]

theorem value_le (n v : Nat) : value (le n v) = v % Nat.pow 256 n := by
  induction n generalizing v with
  | zero => simp [le, value, Nat.mod_one]
  | succ n ih =>
    rw [le, value, ih, Nat.pow_eq, Nat.pow_eq, Nat.pow_succ', Nat.mod_mul, UInt8.toNat_ofNat']

theorem value_lt (bs : Bytes) : value bs < Nat.pow 256 bs.length := by
  induction bs with
  | nil => simp [value]
  | cons b bs ih =>
    have hb := b.toNat_lt
    rw [Nat.pow_eq] at ih ⊢
    rw [value, List.length_cons, Nat.pow_succ']
    omega

theorem le_value (bs : Bytes) : le bs.length (value bs) = bs := by
  induction bs with
  | nil => rfl
  | cons b bs ih =>
    have hb := b.toNat_lt
    have hdiv : value (b :: bs) / 256 = value bs := by rw [value]; omega
    have hmod : UInt8.ofNat (value (b :: bs)) = b := by
      apply UInt8.toNat_inj.1
      rw [UInt8.toNat_ofNat', value]
      omega
    rw [List.length_cons, le, hdiv, hmod, ih]

def ofUInt16 (w : UInt16) : Bytes := le 2 w.toNat
def ofUInt32 (w : UInt32) : Bytes := le 4 w.toNat
def ofUInt64 (w : UInt64) : Bytes := le 8 w.toNat

def toUInt16 (bs : Bytes) : UInt16 := .ofNat (value bs)
def toUInt32 (bs : Bytes) : UInt32 := .ofNat (value bs)
def toUInt64 (bs : Bytes) : UInt64 := .ofNat (value bs)

@[simp] theorem length_ofUInt16 (w : UInt16) : (ofUInt16 w).length = 2 := length_le 2 _
@[simp] theorem length_ofUInt32 (w : UInt32) : (ofUInt32 w).length = 4 := length_le 4 _
@[simp] theorem length_ofUInt64 (w : UInt64) : (ofUInt64 w).length = 8 := length_le 8 _

theorem value_ofUInt32 (w : UInt32) : value (ofUInt32 w) = w.toNat := by
  rw [ofUInt32, value_le]
  exact Nat.mod_eq_of_lt w.toNat_lt

theorem value_ofUInt64 (w : UInt64) : value (ofUInt64 w) = w.toNat := by
  rw [ofUInt64, value_le]
  exact Nat.mod_eq_of_lt w.toNat_lt

@[simp] theorem toUInt16_ofUInt16 (w : UInt16) : toUInt16 (ofUInt16 w) = w := by
  apply UInt16.toNat_inj.1
  have := w.toNat_lt
  simp [toUInt16, ofUInt16, value_le]

@[simp] theorem toUInt32_ofUInt32 (w : UInt32) : toUInt32 (ofUInt32 w) = w := by
  apply UInt32.toNat_inj.1
  have := w.toNat_lt
  simp [toUInt32, ofUInt32, value_le]

@[simp] theorem toUInt64_ofUInt64 (w : UInt64) : toUInt64 (ofUInt64 w) = w := by
  apply UInt64.toNat_inj.1
  have := w.toNat_lt
  simp [toUInt64, ofUInt64, value_le]

theorem ofUInt16_toUInt16 {bs : Bytes} (h : bs.length = 2) : ofUInt16 (toUInt16 bs) = bs := by
  have hv : bs.value < 2 ^ 16 := by
    have := value_lt bs
    rw [h, Nat.pow_eq] at this
    omega
  rw [ofUInt16, toUInt16, UInt16.toNat_ofNat', Nat.mod_eq_of_lt hv, ← h, le_value]

theorem ofUInt32_toUInt32 {bs : Bytes} (h : bs.length = 4) : ofUInt32 (toUInt32 bs) = bs := by
  have hv : bs.value < 2 ^ 32 := by
    have := value_lt bs
    rw [h, Nat.pow_eq] at this
    omega
  rw [ofUInt32, toUInt32, UInt32.toNat_ofNat', Nat.mod_eq_of_lt hv, ← h, le_value]

theorem ofUInt64_toUInt64 {bs : Bytes} (h : bs.length = 8) : ofUInt64 (toUInt64 bs) = bs := by
  have hv : bs.value < 2 ^ 64 := by
    have := value_lt bs
    rw [h, Nat.pow_eq] at this
    omega
  rw [ofUInt64, toUInt64, UInt64.toNat_ofNat', Nat.mod_eq_of_lt hv, ← h, le_value]

def split? (n : Nat) (bs : Bytes) : Option (Bytes × Bytes) :=
  let front := bs.take n
  if front.length = n then some (front, bs.drop n) else none

theorem split?_eq_some_iff {n : Nat} {bs front rest : Bytes} :
    split? n bs = some (front, rest) ↔ bs = front ++ rest ∧ front.length = n := by
  simp only [split?]
  constructor
  · intro h
    split at h
    · rename_i hn
      obtain ⟨rfl, rfl⟩ := Prod.mk.inj (Option.some.inj h)
      exact ⟨(List.take_append_drop n bs).symm, hn⟩
    · simp at h
  · rintro ⟨rfl, rfl⟩
    simp

theorem split?_append {front : Bytes} (rest : Bytes) {n : Nat} (h : front.length = n) :
    split? n (front ++ rest) = some (front, rest) :=
  split?_eq_some_iff.2 ⟨rfl, h⟩

theorem split?_of_le {n : Nat} {bs : Bytes} (h : n ≤ bs.length) :
    split? n bs = some (bs.take n, bs.drop n) := by
  rw [split?, if_pos (List.length_take_of_le h)]

theorem split?_eq_none_iff {n : Nat} {bs : Bytes} : split? n bs = none ↔ bs.length < n := by
  simp only [split?, List.length_take]
  split <;> simp <;> omega

def ofAscii (s : String) : Bytes := s.toList.map fun c => UInt8.ofNat c.toNat

end Bytes
end Columnar
