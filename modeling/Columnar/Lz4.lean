import Columnar.Bytes

/-! LZ4 blocks. A block is a chain of sequences: a token, a run of literals, and a match that copies
bytes already written; the last sequence ends after its literals. Decoding writes at most `room`
bytes. An input has many blocks; an `Encoder` picks one that decodes to it. Here `encode` stores the
input as one run of literals, and `decode_encode` says that it comes back in any room that holds
it. -/

namespace Columnar.Lz4

inductive Fault
  | missingByte
  | literalOutOfBounds
  | outputTooSmall (room needed : Nat)
  | zeroOffset
  | offsetOutOfBounds
  deriving Repr, DecidableEq

def Fault.message : Fault → String
  | .missingByte => "expected another byte, found none"
  | .literalOutOfBounds => "literal is out of bounds of the input"
  | .outputTooSmall room needed =>
    s!"provided output is too small for the decompressed data, actual {room}, expected {needed}"
  | .zeroOffset => "0 is not a valid match offset"
  | .offsetOutOfBounds => "the offset to copy is not contained in the decompressed buffer"

/-- A length continued in further bytes, up to and including the first that is not 255. -/
def extend (length : Nat) : Bytes → Except Fault (Nat × Bytes)
  | [] => .error .missingByte
  | b :: bs => if b = 255 then extend (length + 255) bs else .ok (length + b.toNat, bs)

def readLength (nibble : Nat) (input : Bytes) : Except Fault (Nat × Bytes) :=
  if nibble = 15 then extend 15 input else .ok (nibble, input)

def readLiterals (room : Nat) (out : Array UInt8) :
    Bytes → Except Fault (Array UInt8 × Nat × Bytes)
  | [] => .error .missingByte
  | token :: input =>
    match readLength (token.toNat / 16) input with
    | .error e => .error e
    | .ok (length, input) =>
      match Bytes.split? length input with
      | none => .error .literalOutOfBounds
      | some (literals, rest) =>
        if room < out.size + length then .error (.outputTooSmall room (out.size + length))
        else .ok (out ++ literals, token.toNat % 16, rest)

def copy (offset : Nat) : Nat → Array UInt8 → Array UInt8
  | 0, out => out
  | count + 1, out => copy offset count (out.push (out.getD (out.size - offset) 0))

def readMatch (room : Nat) (out : Array UInt8) (nibble : Nat) (input : Bytes) :
    Except Fault (Array UInt8 × Bytes) :=
  match Bytes.split? 2 input with
  | none => .error .missingByte
  | some (word, rest) =>
    let offset := Bytes.value word
    if offset = 0 then .error .zeroOffset
    else
      match readLength nibble rest with
      | .error e => .error e
      | .ok (length, rest) =>
        let length := length + 4
        if room < out.size + length then .error (.outputTooSmall room (out.size + length))
        else if out.size < offset then .error .offsetOutOfBounds
        else .ok (copy offset length out, rest)

theorem extend_shorter {n m : Nat} {bs rest : Bytes} (h : extend n bs = .ok (m, rest)) :
    rest.length < bs.length := by
  induction bs generalizing n with
  | nil => simp [extend] at h
  | cons b bs ih =>
    rw [extend] at h
    split at h
    · have := ih h
      simp only [List.length_cons]; omega
    · obtain ⟨-, rfl⟩ := Prod.mk.inj (Except.ok.inj h)
      simp

theorem readLength_le {nibble m : Nat} {bs rest : Bytes}
    (h : readLength nibble bs = .ok (m, rest)) : rest.length ≤ bs.length := by
  rw [readLength] at h
  split at h
  · exact Nat.le_of_lt (extend_shorter h)
  · obtain ⟨-, rfl⟩ := Prod.mk.inj (Except.ok.inj h)
    exact Nat.le_refl _

theorem readLiterals_shorter {room nibble : Nat} {out out' : Array UInt8} {bs rest : Bytes}
    (h : readLiterals room out bs = .ok (out', nibble, rest)) : rest.length < bs.length := by
  cases bs with
  | nil => simp [readLiterals] at h
  | cons token input =>
    rw [readLiterals] at h
    split at h
    · simp at h
    · rename_i length tail hl
      have h1 := readLength_le hl
      split at h
      · simp at h
      · rename_i literals left hs
        obtain ⟨rfl, -⟩ := Bytes.split?_eq_some_iff.1 hs
        split at h
        · simp at h
        · obtain ⟨-, h2⟩ := Prod.mk.inj (Except.ok.inj h)
          obtain ⟨-, rfl⟩ := Prod.mk.inj h2
          simp only [List.length_append] at h1
          simp only [List.length_cons]; omega

theorem readMatch_shorter {room nibble : Nat} {out out' : Array UInt8} {bs rest : Bytes}
    (h : readMatch room out nibble bs = .ok (out', rest)) : rest.length < bs.length := by
  rw [readMatch] at h
  split at h
  · simp at h
  · rename_i word tail hs
    obtain ⟨rfl, hw⟩ := Bytes.split?_eq_some_iff.1 hs
    dsimp only at h
    split at h
    · simp at h
    · split at h
      · simp at h
      · rename_i length left hl
        have h1 := readLength_le hl
        split at h
        · simp at h
        · split at h
          · simp at h
          · obtain ⟨-, rfl⟩ := Prod.mk.inj (Except.ok.inj h)
            simp only [List.length_append]; omega

def decodeFrom (room : Nat) (out : Array UInt8) (input : Bytes) :
    Except Fault (Array UInt8) :=
  match _h : readLiterals room out input with
  | .error e => .error e
  | .ok (out, _, []) => .ok out
  | .ok (out, nibble, b :: bs) =>
    match _h' : readMatch room out nibble (b :: bs) with
    | .error e => .error e
    | .ok (out, rest) => decodeFrom room out rest
termination_by input.length
decreasing_by
  exact Nat.lt_trans (readMatch_shorter _h') (readLiterals_shorter _h)

def decode (room : Nat) (input : Bytes) : Except Fault (Array UInt8) :=
  decodeFrom room #[] input

@[simp] theorem size_copy (offset count : Nat) (out : Array UInt8) :
    (copy offset count out).size = out.size + count := by
  induction count generalizing out with
  | zero => rfl
  | succ n ih => rw [copy, ih, Array.size_push]; omega

theorem size_append_bytes (out : Array UInt8) (bs : Bytes) :
    (out ++ bs).size = out.size + bs.length := by
  rw [← Array.length_toList, Array.toList_appendList, List.length_append, Array.length_toList]

theorem readLiterals_size_le {room nibble : Nat} {out out' : Array UInt8} {bs rest : Bytes}
    (h : readLiterals room out bs = .ok (out', nibble, rest)) : out'.size ≤ room := by
  cases bs with
  | nil => simp [readLiterals] at h
  | cons token input =>
    rw [readLiterals] at h
    split at h
    · simp at h
    · split at h
      · simp at h
      · rename_i literals left hs
        obtain ⟨-, hl⟩ := Bytes.split?_eq_some_iff.1 hs
        split at h
        · simp at h
        · obtain ⟨rfl, -⟩ := Prod.mk.inj (Except.ok.inj h)
          rw [size_append_bytes]
          omega

theorem decodeFrom_size_le {room : Nat} {out out' : Array UInt8} {bs : Bytes}
    (h : decodeFrom room out bs = .ok out') : out'.size ≤ room := by
  fun_induction decodeFrom room out bs with
  | case1 => simp at h
  | case2 out bs out₂ nibble hl =>
    obtain rfl := Except.ok.inj h
    exact readLiterals_size_le hl
  | case3 => simp at h
  | case4 out bs out₂ nibble b rest hl out₃ rest' hm ih => exact ih h

theorem decode_size_le {room : Nat} {bs : Bytes} {out : Array UInt8}
    (h : decode room bs = .ok out) : out.size ≤ room :=
  decodeFrom_size_le h

def lengthTail (n : Nat) : Bytes :=
  if n < 255 then [UInt8.ofNat n] else 255 :: lengthTail (n - 255)

def encode (bs : Bytes) : Bytes :=
  if bs.length < 15 then UInt8.ofNat (16 * bs.length) :: bs
  else 0xF0 :: (lengthTail (bs.length - 15) ++ bs)

theorem extend_lengthTail (m n : Nat) (bs : Bytes) :
    extend m (lengthTail n ++ bs) = .ok (m + n, bs) := by
  fun_induction lengthTail n generalizing m with
  | case1 n h =>
    have hn : (UInt8.ofNat n).toNat = n := by
      rw [UInt8.toNat_ofNat']; omega
    have hne : UInt8.ofNat n ≠ 255 := by
      intro he
      have := congrArg UInt8.toNat he
      rw [hn] at this
      change n = 255 at this
      omega
    simp [extend, hne, hn]
  | case2 n h ih =>
    simp only [List.cons_append, extend, ↓reduceIte, ih]
    rw [show m + 255 + (n - 255) = m + n by omega]

theorem readLiterals_encode (room : Nat) (out : Array UInt8) (bs : Bytes) :
    readLiterals room out (encode bs) =
      if room < out.size + bs.length then .error (.outputTooSmall room (out.size + bs.length))
      else .ok (out ++ bs, 0, []) := by
  rw [encode]
  split
  · rename_i h
    have ht : (UInt8.ofNat (16 * bs.length)).toNat = 16 * bs.length := by
      rw [UInt8.toNat_ofNat']; omega
    have hd : 16 * bs.length / 16 = bs.length := by omega
    have hm : 16 * bs.length % 16 = 0 := by omega
    have hs : Bytes.split? bs.length (bs ++ []) = some (bs, []) := Bytes.split?_append [] rfl
    rw [List.append_nil] at hs
    simp only [readLiterals, ht, hd, hm, readLength, if_neg (show ¬bs.length = 15 by omega), hs]
  · rename_i h
    have hs : Bytes.split? bs.length (bs ++ []) = some (bs, []) := Bytes.split?_append [] rfl
    rw [List.append_nil] at hs
    have hb : 15 + (bs.length - 15) = bs.length := by omega
    have hq : (0xF0 : UInt8).toNat / 16 = 15 := rfl
    have hr : (0xF0 : UInt8).toNat % 16 = 0 := rfl
    simp only [readLiterals, hq, hr, readLength, if_pos, extend_lengthTail, hb, hs]

theorem decode_encode (room : Nat) (bs : Bytes) :
    decode room (encode bs) =
      if room < bs.length then .error (.outputTooSmall room bs.length) else .ok bs.toArray := by
  rw [decode, decodeFrom]
  have h := readLiterals_encode room #[] bs
  simp only [List.size_toArray, List.length_nil, Nat.zero_add] at h
  split at h
  · rename_i hr
    rw [if_pos hr]
    split <;> simp_all
  · rename_i hr
    rw [if_neg hr]
    split <;> simp_all

def algorithm : Nat := 1

/-- A way to write blocks: whatever runs and matches it chooses, decoding undoes it. -/
structure Encoder where
  encode : Bytes → Bytes
  decode_encode : ∀ bs : Bytes, bs.length < UInt32.size →
    decode bs.length (encode bs) = .ok bs.toArray

def literalRun : Encoder := ⟨encode, fun bs _ => by simp [decode_encode]⟩

def Encoder.compress (e : Encoder) (bs : Bytes) : Bytes :=
  Bytes.ofUInt32 (.ofNat bs.length) ++ e.encode bs

def compress (bs : Bytes) : Bytes := literalRun.compress bs

def announcedSize? (compressed : Bytes) : Option Nat :=
  (Bytes.split? 4 compressed).map fun s => Bytes.value s.1

theorem Encoder.announcedSize?_compress (e : Encoder) {bs : Bytes}
    (h : bs.length < UInt32.size) : announcedSize? (e.compress bs) = some bs.length := by
  rw [announcedSize?, compress, Bytes.split?_append _ (Bytes.length_ofUInt32 _)]
  simp [Bytes.ofUInt32, Bytes.value_le, UInt32.size] at h ⊢
  omega

end Columnar.Lz4
