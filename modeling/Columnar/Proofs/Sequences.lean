import Mathlib.Data.List.Basic
import Columnar.Lz4

/-! The format of LZ4 blocks as a relation, and the decoder as its decision. A length is written as a
nibble and the bytes that continue it; a sequence is a token, its literals and a match, and a block
is a chain of sequences that ends with literals. What a block says does not depend on the room: the
decoder finds it in any room that holds it and in no other. -/

namespace Columnar.Lz4

def lengthBytes (n : Nat) : Bytes := if n < 15 then [] else lengthTail (n - 15)

variable {room nibble n m : Nat} {out out' final : Array UInt8} {input rest : Bytes}

theorem extend_eq_ok : extend m input = .ok (n, rest) ↔
    ∃ k, n = m + k ∧ input = lengthTail k ++ rest := by
  constructor
  · intro h
    induction input generalizing m with
    | nil => cases h
    | cons b bs ih =>
      rw [extend] at h
      split at h
      · rename_i hb
        obtain ⟨k, rfl, rfl⟩ := ih h
        have htail : lengthTail (k + 255) = 255 :: lengthTail k := by
          rw [lengthTail, if_neg (by omega), Nat.add_sub_cancel]
        refine ⟨k + 255, by omega, ?_⟩
        rw [htail, hb]
        rfl
      · rename_i hb
        obtain ⟨rfl, rfl⟩ := Prod.mk.inj (Except.ok.inj h)
        have hne : b.toNat ≠ 255 := fun he => hb (UInt8.toNat_inj.1 he)
        have hlt := b.toNat_lt
        refine ⟨b.toNat, rfl, ?_⟩
        rw [lengthTail, if_pos (by omega), UInt8.ofNat_toNat]
        rfl
  · rintro ⟨k, rfl, rfl⟩
    exact extend_lengthTail m k rest

theorem readLength_eq_ok (hn : nibble < 16) : readLength nibble input = .ok (n, rest) ↔
    nibble = min n 15 ∧ input = lengthBytes n ++ rest := by
  rw [readLength, lengthBytes]
  by_cases h15 : nibble = 15
  · rw [if_pos h15, extend_eq_ok]
    constructor
    · rintro ⟨k, rfl, rfl⟩
      rw [if_neg (by omega), Nat.add_sub_cancel_left]
      exact ⟨by omega, rfl⟩
    · rintro ⟨hmin, rfl⟩
      rw [if_neg (by omega)]
      exact ⟨n - 15, by omega, rfl⟩
  · rw [if_neg h15]
    constructor
    · intro h
      obtain ⟨rfl, rfl⟩ := Prod.mk.inj (Except.ok.inj h)
      rw [if_pos (by omega)]
      exact ⟨by omega, rfl⟩
    · rintro ⟨hmin, rfl⟩
      rw [if_pos (by omega), show nibble = n by omega]
      rfl

theorem readLiterals_eq_ok : readLiterals room out input = .ok (out', nibble, rest) ↔
    ∃ (token : UInt8) (literals : Bytes),
      input = token :: (lengthBytes literals.length ++ (literals ++ rest)) ∧
      token.toNat / 16 = min literals.length 15 ∧ token.toNat % 16 = nibble ∧
      out' = out ++ literals ∧ out'.size ≤ room := by
  cases input with
  | nil => simp [readLiterals]
  | cons token input =>
    have htoken : token.toNat / 16 < 16 := by
      have := token.toNat_lt
      omega
    constructor
    · intro h
      rw [readLiterals] at h
      split at h
      · cases h
      · rename_i length tail hl
        obtain ⟨hmin, rfl⟩ := (readLength_eq_ok htoken).1 hl
        split at h
        · cases h
        · rename_i literals left hs
          obtain ⟨rfl, rfl⟩ := Bytes.split?_eq_some_iff.1 hs
          split at h
          · cases h
          · obtain ⟨rfl, h2⟩ := Prod.mk.inj (Except.ok.inj h)
            obtain ⟨rfl, rfl⟩ := Prod.mk.inj h2
            exact ⟨token, literals, rfl, hmin, rfl, rfl, by rw [size_append_bytes]; omega⟩
    · rintro ⟨token', literals, hinput, hmin, rfl, rfl, hroom⟩
      obtain ⟨rfl, rfl⟩ := List.cons.inj hinput
      rw [size_append_bytes] at hroom
      simp only [readLiterals, (readLength_eq_ok htoken).2 ⟨hmin, rfl⟩,
        Bytes.split?_append rest rfl, if_neg (Nat.not_lt.2 hroom)]

theorem readMatch_eq_ok (hn : nibble < 16) : readMatch room out nibble input = .ok (out', rest) ↔
    ∃ offset length, input = Bytes.le 2 offset ++ (lengthBytes length ++ rest) ∧
      nibble = min length 15 ∧ 0 < offset ∧ offset < 65536 ∧ offset ≤ out.size ∧
      out' = copy offset (length + 4) out ∧ out'.size ≤ room := by
  constructor
  · intro h
    rw [readMatch] at h
    split at h
    · cases h
    · rename_i word tail hs
      obtain ⟨rfl, hword⟩ := Bytes.split?_eq_some_iff.1 hs
      dsimp only at h
      split at h
      · cases h
      · rename_i hoffset
        split at h
        · cases h
        · rename_i length left hl
          obtain ⟨hmin, rfl⟩ := (readLength_eq_ok hn).1 hl
          split at h
          · cases h
          · split at h
            · cases h
            · obtain ⟨rfl, rfl⟩ := Prod.mk.inj (Except.ok.inj h)
              have hvalue := Bytes.value_lt word
              have hle := Bytes.le_value word
              rw [hword] at hvalue hle
              have hpow : Nat.pow 256 2 = 65536 := rfl
              refine ⟨Bytes.value word, length, by rw [hle], hmin, by omega, by omega, by omega,
                rfl, by rw [size_copy]; omega⟩
  · rintro ⟨offset, length, rfl, hmin, hpos, hlt, hback, rfl, hroom⟩
    have hvalue : Bytes.value (Bytes.le 2 offset) = offset := by
      rw [Bytes.value_le]
      exact Nat.mod_eq_of_lt hlt
    rw [size_copy] at hroom
    simp only [readMatch, Bytes.split?_append _ (Bytes.length_le 2 offset), hvalue,
      if_neg (show ¬offset = 0 by omega), (readLength_eq_ok hn).2 ⟨hmin, rfl⟩,
      if_neg (Nat.not_lt.2 hroom), if_neg (Nat.not_lt.2 hback)]

/-- `input` is the rest of a block behind `out`, and the whole of it is `final`. -/
inductive Describes : Array UInt8 → Bytes → Array UInt8 → Prop
  | last {out : Array UInt8} (token : UInt8) (literals : Bytes)
      (htoken : token.toNat / 16 = min literals.length 15) :
      Describes out (token :: (lengthBytes literals.length ++ literals)) (out ++ literals)
  | sequence {out final : Array UInt8} (token : UInt8) (literals : Bytes) (offset length : Nat)
      (rest : Bytes) (htoken : token.toNat = 16 * min literals.length 15 + min length 15)
      (hpos : 0 < offset) (hword : offset < 65536) (hback : offset ≤ (out ++ literals).size)
      (hrest : Describes (copy offset (length + 4) (out ++ literals)) rest final) :
      Describes out (token :: (lengthBytes literals.length ++ (literals ++
        (Bytes.le 2 offset ++ (lengthBytes length ++ rest))))) final

theorem Describes.size_le (h : Describes out input final) : out.size ≤ final.size := by
  induction h with
  | last token literals htoken =>
    rw [size_append_bytes]
    exact Nat.le_add_right _ _
  | sequence token literals offset length rest htoken hpos hword hback hrest ih =>
    rw [size_copy, size_append_bytes] at ih
    omega

theorem decodeFrom_of_last (h : readLiterals room out input = .ok (out', nibble, [])) :
    decodeFrom room out input = .ok out' := by
  rw [decodeFrom]
  split <;> simp_all

theorem decodeFrom_of_sequence {out₂ : Array UInt8} {b : UInt8} {tail : Bytes}
    (h : readLiterals room out input = .ok (out', nibble, b :: tail))
    (hm : readMatch room out' nibble (b :: tail) = .ok (out₂, rest)) :
    decodeFrom room out input = decodeFrom room out₂ rest := by
  rw [decodeFrom]
  split
  · simp_all
  · simp_all
  · rename_i out₁ nibble₁ b₁ tail₁ hl
    obtain ⟨rfl, rfl, rfl, rfl⟩ : out' = out₁ ∧ nibble = nibble₁ ∧ b = b₁ ∧ tail = tail₁ := by
      simpa using h.symm.trans hl
    split <;> simp_all

theorem describes_of_decodeFrom (h : decodeFrom room out input = .ok final) :
    Describes out input final := by
  fun_induction decodeFrom room out input with
  | case1 => cases h
  | case2 out input out' nibble hl =>
    obtain rfl := Except.ok.inj h
    obtain ⟨token, literals, rfl, htoken, -, rfl, -⟩ := readLiterals_eq_ok.1 hl
    rw [List.append_nil]
    exact .last token literals htoken
  | case3 => cases h
  | case4 out input out' nibble b tail hl out₂ rest hm ih =>
    obtain ⟨token, literals, rfl, htoken, hnibble, rfl, -⟩ := readLiterals_eq_ok.1 hl
    obtain ⟨offset, length, htail, hmin, hpos, hword, hback, rfl, -⟩ :=
      (readMatch_eq_ok (by omega)).1 hm
    rw [htail]
    exact .sequence token literals offset length rest (by omega) hpos hword hback (ih h)

theorem Describes.decodeFrom (h : Describes out input final) (hroom : final.size ≤ room) :
    decodeFrom room out input = .ok final := by
  -- Every step fits because what is written so far is never longer than `final`.
  induction h with
  | @last out token literals htoken =>
    refine decodeFrom_of_last (readLiterals_eq_ok.2 ⟨token, literals, ?_, htoken, rfl, rfl, hroom⟩)
    rw [List.append_nil]
  | @sequence out final token literals offset length rest htoken hpos hword hback hrest ih =>
    have hcopied := hrest.size_le
    rw [size_copy] at hcopied
    obtain ⟨b, tail, htail⟩ : ∃ b tail,
        Bytes.le 2 offset ++ (lengthBytes length ++ rest) = b :: tail := ⟨_, _, rfl⟩
    have hl : readLiterals room out (token :: (lengthBytes literals.length ++ (literals ++
        (b :: tail)))) = .ok (out ++ literals, token.toNat % 16, b :: tail) :=
      readLiterals_eq_ok.2 ⟨token, literals, rfl, by omega, rfl, rfl, by omega⟩
    have hm : readMatch room (out ++ literals) (token.toNat % 16) (b :: tail) =
        .ok (copy offset (length + 4) (out ++ literals), rest) :=
      (readMatch_eq_ok (by omega)).2 ⟨offset, length, htail.symm, by omega, hpos, hword, hback, rfl,
        by rw [size_copy]; omega⟩
    rw [htail, decodeFrom_of_sequence hl hm]
    exact ih hroom

theorem decode_eq_ok_iff :
    decode room input = .ok out ↔ Describes #[] input out ∧ out.size ≤ room := by
  constructor
  · intro h
    exact ⟨describes_of_decodeFrom h, decode_size_le h⟩
  · rintro ⟨h, hroom⟩
    exact h.decodeFrom hroom

theorem Describes.unique (h : Describes #[] input out) (h' : Describes #[] input out') :
    out = out' := by
  have hleft := decode_eq_ok_iff.2 ⟨h, Nat.le_max_left out.size out'.size⟩
  have hright := decode_eq_ok_iff.2 ⟨h', Nat.le_max_right out.size out'.size⟩
  exact Except.ok.inj (hleft.symm.trans hright)

end Columnar.Lz4
