import Mathlib.Data.List.Basic
import Columnar.Text.Whole

/-! Texts read back. Whole numbers are read digit by digit, and a text is split at a separator. What
`toString` writes of a number is read as that number, and lines are found again where none of them
holds a line feed. -/

namespace Columnar

namespace Text

theorem digits?_of_isDigit {cs : List Char} (h : ∀ c ∈ cs, c.isDigit = true) (n : Nat) :
    digits? n cs = some (Nat.ofDigitChars 10 cs n) := by
  induction cs generalizing n with
  | nil => rfl
  | cons c cs ih =>
    obtain ⟨hc, hcs⟩ := List.forall_mem_cons.1 h
    rw [Char.isDigit, Bool.and_eq_true, decide_eq_true_eq, decide_eq_true_eq] at hc
    have hdigit : digit? c = some (c.toNat - '0'.toNat) := if_pos hc
    rw [digits?, hdigit, Option.bind_some, ih hcs, Nat.ofDigitChars_cons]

theorem isDigit_of_mem_toDigits {n : Nat} {c : Char} (h : c ∈ Nat.toDigits 10 n) :
    c.isDigit = true :=
  Nat.isDigit_of_mem_toDigits (by decide) (by decide) h

theorem natural?_toDigits (n : Nat) : natural? (Nat.toDigits 10 n) = some n := by
  have hread : digits? 0 (Nat.toDigits 10 n) = some n := by
    rw [digits?_of_isDigit fun _ => isDigit_of_mem_toDigits, Nat.ofDigitChars_ten_toDigits]
  rw [natural?.eq_def]
  split
  · rename_i hnil
    exact absurd hnil Nat.toDigits_ne_nil
  · exact hread

theorem toList_natural (n : Nat) : (toString n).toList = Nat.toDigits 10 n := by
  rw [Nat.toString_eq_repr, Nat.toList_repr]

theorem toList_negative (n : Nat) :
    (toString (Int.negSucc n)).toList = '-' :: Nat.toDigits 10 (n + 1) := by
  have htext : toString (Int.negSucc n) = "-" ++ toString (n + 1) := rfl
  rw [htext, String.toList_append, toList_natural]
  rfl

theorem unsigned?_toString (n : Nat) : unsigned? (toString n) = some n := by
  rw [unsigned?, toList_natural]
  -- No number starts with a sign, so the digits are read as they are.
  split
  · rename_i hplus
    have hdigit := isDigit_of_mem_toDigits (n := n) (hplus ▸ List.mem_cons_self)
    cases hdigit
  · exact natural?_toDigits n

theorem signed?_toString (i : Int) : signed? (toString i) = some i := by
  cases i with
  | ofNat n =>
    have htext : toString (Int.ofNat n) = toString n := rfl
    rw [htext, signed?, toList_natural]
    split
    · rename_i hminus
      have hdigit := isDigit_of_mem_toDigits (n := n) (hminus ▸ List.mem_cons_self)
      cases hdigit
    · rw [unsigned?_toString]
      rfl
  | negSucc n =>
    rw [signed?, toList_negative]
    simp only [natural?_toDigits]
    rfl

theorem not_mem_natural {c : Char} (h : c.isDigit = false) (n : Nat) :
    c ∉ (toString n).toList := by
  rw [toList_natural]
  intro hmem
  rw [isDigit_of_mem_toDigits hmem] at h
  cases h

theorem not_mem_integer {c : Char} (h : c.isDigit = false) (hminus : c ≠ '-') (i : Int) :
    c ∉ (toString i).toList := by
  cases i with
  | ofNat n => exact not_mem_natural h n
  | negSucc n =>
    rw [toList_negative, List.mem_cons, not_or, ← toList_natural]
    exact ⟨hminus, not_mem_natural h (n + 1)⟩

theorem not_mem_append {c : Char} {s t : String} (hs : c ∉ s.toList) (ht : c ∉ t.toList) :
    c ∉ (s ++ t).toList := by
  rw [String.toList_append, List.mem_append, not_or]
  exact ⟨hs, ht⟩

def partsOf (separator : Char) (text : String) : List String :=
  (text.split separator).toList.map String.Slice.copy

theorem partsOf_eq {separator : Char} {text : String} {parts : List String}
    (htext : text = (String.singleton separator).intercalate parts) (hne : parts ≠ [])
    (h : ∀ part ∈ parts, separator ∉ part.toList) : partsOf separator text = parts := by
  rw [partsOf, htext, String.toList_split_intercalate h, if_neg hne]

/-- The lines of a text in which every line ends with a line feed; behind the last one there is an
empty part. -/
def linesOf (text : String) : List String := (partsOf '\n' text).dropLast

def ofLines (lines : List String) : String := String.join (lines.map (· ++ "\n"))

theorem ofLines_eq_intercalate (lines : List String) :
    ofLines lines = (String.singleton '\n').intercalate (lines ++ [""]) := by
  have hfeed : String.singleton '\n' = "\n" := rfl
  rw [hfeed]
  induction lines with
  | nil => rfl
  | cons line lines ih =>
    rw [List.cons_append, String.intercalate_cons_of_ne_nil (List.concat_ne_nil "" lines), ← ih]
    rw [ofLines, List.map_cons, String.join_cons]
    rfl

theorem linesOf_ofLines {lines : List String} (h : ∀ line ∈ lines, '\n' ∉ line.toList) :
    linesOf (ofLines lines) = lines := by
  have hparts : ∀ part ∈ lines ++ [""], '\n' ∉ part.toList := by
    intro part hpart
    rcases List.mem_append.1 hpart with hpart | hpart
    · exact h part hpart
    · rw [List.mem_singleton.1 hpart]
      exact List.not_mem_nil
  rw [linesOf, partsOf_eq (ofLines_eq_intercalate lines) (List.concat_ne_nil "" lines) hparts,
    List.dropLast_concat]

end Text

end Columnar
