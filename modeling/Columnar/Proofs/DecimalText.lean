import Columnar.Block.Values
import Columnar.Proofs.ShortestDecimal
import Columnar.Proofs.TextReading

/-! What the text of a value says of the value. The text of a whole number is read as that number.
The text of a finite double is read as a decimal that is rounded to the double, the shortest and
nearest one, without a zero that could be left out. So no two values of a column have one text,
save that all doubles that are no number are written alike. -/

namespace Columnar

namespace Text

/-- The number that a plain decimal writes, where no zero in front or at the end could be left
out. -/
def decimal? (text : String) : Option ℚ :=
  match partsOf '.' text with
  | [whole] => do
    let n ← natural? whole.toList
    if toString n = whole then some (n : ℚ) else none
  | [whole, places] => do
    let n ← natural? whole.toList
    let m ← natural? places.toList
    if toString n = whole ∧ m % 10 ≠ 0 then some (n + m / 10 ^ places.length) else none
  | _ => none

theorem natural?_toString (n : Nat) : natural? (toString n).toList = some n := by
  rw [toList_natural, natural?_toDigits]

theorem decimal?_natural (n : Nat) : decimal? (toString n) = some (n : ℚ) := by
  have hparts : partsOf '.' (toString n) = [toString n] := by
    refine partsOf_eq String.intercalate_singleton.symm (List.cons_ne_nil _ _) ?_
    rw [List.forall_mem_singleton]
    exact not_mem_natural rfl n
  rw [decimal?, hparts]
  simp only [natural?_toString, Option.bind_eq_bind, Option.bind_some, if_pos]

theorem decimal?_places (n : Nat) {m : Nat} {places : String}
    (hread : natural? places.toList = some m) (hpoint : '.' ∉ places.toList) (hm : m % 10 ≠ 0) :
    decimal? (toString n ++ "." ++ places) = some (n + m / 10 ^ places.length : ℚ) := by
  have hparts : partsOf '.' (toString n ++ "." ++ places) = [toString n, places] := by
    refine partsOf_eq ?_ (List.cons_ne_nil _ _) ?_
    · rw [String.intercalate_cons_cons, String.intercalate_singleton]
      rfl
    · rw [List.forall_mem_cons, List.forall_mem_singleton]
      exact ⟨not_mem_natural rfl n, hpoint⟩
  rw [decimal?, hparts]
  simp only [natural?_toString, hread, Option.bind_eq_bind, Option.bind_some, if_pos hm, true_and]

def signedDecimal? (text : String) : Option (Bool × ℚ) :=
  match text.toList with
  | '-' :: cs => (decimal? (String.ofList cs)).map (true, ·)
  | _ => (decimal? text).map (false, ·)

theorem signedDecimal?_minus (text : String) :
    signedDecimal? ("-" ++ text) = (decimal? text).map (true, ·) := by
  rw [signedDecimal?, String.toList_append]
  exact congrArg (fun t => (decimal? t).map (true, ·)) String.ofList_toList

theorem signedDecimal?_plain {text : String} (h : '-' ∉ text.toList) :
    signedDecimal? text = (decimal? text).map (false, ·) := by
  rw [signedDecimal?.eq_def]
  split
  · rename_i hminus
    rw [hminus] at h
    exact absurd List.mem_cons_self h
  · rfl

theorem decimal?_of_not_natural {text : String} (hpoint : '.' ∉ text.toList)
    (h : natural? text.toList = none) : decimal? text = none := by
  have hparts : partsOf '.' text = [text] := by
    refine partsOf_eq String.intercalate_singleton.symm (List.cons_ne_nil _ _) ?_
    rwa [List.forall_mem_singleton]
  rw [decimal?, hparts]
  simp only [h]
  rfl

theorem signedDecimal?_sign {text : String} (h : '-' ∉ text.toList) (negative : Bool) :
    signedDecimal? ((if negative then "-" else "") ++ text) = (decimal? text).map (negative, ·) := by
  cases negative
  · rw [if_neg Bool.false_ne_true, String.empty_append, signedDecimal?_plain h]
  · rw [if_pos rfl, signedDecimal?_minus]

end Text

namespace Decimal

def lastDigits : Nat → Nat → List Char
  | 0, _ => []
  | k + 1, n => lastDigits k (n / 10) ++ [Nat.digitChar (n % 10)]

theorem toDigits_of_ten_le {n : Nat} (h : 10 ≤ n) :
    Nat.toDigits 10 n = Nat.toDigits 10 (n / 10) ++ [Nat.digitChar (n % 10)] := by
  have hlt : n % 10 < 10 := Nat.mod_lt n (by decide)
  rw [← Nat.toDigits_of_lt_base hlt, Nat.toDigits_append_toDigits (by decide) (by omega) hlt,
    Nat.div_add_mod]

theorem length_lastDigits (k n : Nat) : (lastDigits k n).length = k := by
  induction k generalizing n with
  | zero => rfl
  | succ k ih => rw [lastDigits, List.length_append, ih, List.length_singleton]

theorem isDigit_of_mem_lastDigits {k n : Nat} : ∀ c ∈ lastDigits k n, c.isDigit = true := by
  induction k generalizing n with
  | zero => exact List.forall_mem_nil _
  | succ k ih =>
    rw [lastDigits, List.forall_mem_append, List.forall_mem_singleton, Nat.isDigit_digitChar]
    exact ⟨ih, decide_eq_true (Nat.mod_lt n (by decide))⟩

theorem toNat_digitChar : ∀ d < 10, (Nat.digitChar d).toNat - '0'.toNat = d := by decide

theorem ofDigitChars_lastDigits (k n : Nat) :
    Nat.ofDigitChars 10 (lastDigits k n) 0 = n % 10 ^ k := by
  induction k generalizing n with
  | zero => exact (Nat.mod_one n).symm
  | succ k ih =>
    have hlt : n % 10 < 10 := Nat.mod_lt n (by decide)
    rw [lastDigits, Nat.ofDigitChars_append, ih, Nat.ofDigitChars_cons, Nat.ofDigitChars_nil,
      toNat_digitChar _ hlt, Nat.add_comm, Nat.pow_succ', Nat.mod_mul]

theorem natural?_lastDigits {k : Nat} (hk : k ≠ 0) (n : Nat) :
    Text.natural? (lastDigits k n) = some (n % 10 ^ k) := by
  have hread := Text.digits?_of_isDigit (@isDigit_of_mem_lastDigits k n) 0
  rw [ofDigitChars_lastDigits] at hread
  rw [Text.natural?.eq_def]
  split
  · rename_i hnil
    have hlength := length_lastDigits k n
    rw [hnil] at hlength
    exact absurd hlength.symm hk
  · exact hread

theorem padded_eq (k n : Nat) :
    List.replicate (k + 1 - (Nat.toDigits 10 n).length) '0' ++ Nat.toDigits 10 n =
      Nat.toDigits 10 (n / 10 ^ k) ++ lastDigits k n := by
  induction k generalizing n with
  | zero =>
    have hpos := List.length_pos_iff.2 (@Nat.toDigits_ne_nil n 10)
    rw [Nat.sub_eq_zero_of_le hpos, Nat.pow_zero, Nat.div_one, lastDigits, List.append_nil]
    rfl
  | succ k ih =>
    have hnext := ih (n / 10)
    rw [lastDigits, ← List.append_assoc, Nat.pow_succ', ← Nat.div_div_eq_div_mul, ← hnext]
    rcases Nat.lt_or_ge n 10 with hlt | hge
    · have hzero : n / 10 = 0 := Nat.div_eq_of_lt hlt
      have hdigit : Nat.toDigits 10 0 = ['0'] := rfl
      rw [hzero, Nat.toDigits_of_lt_base hlt, Nat.mod_eq_of_lt hlt, hdigit, ← List.replicate_succ']
      rfl
    · rw [toDigits_of_ten_le hge, List.length_append, List.length_singleton,
        Nat.add_sub_add_right, List.append_assoc]

theorem toList_pushn (s : String) (c : Char) (n : Nat) :
    (s.pushn c n).toList = s.toList ++ List.replicate n c := by
  induction n with
  | zero => exact (List.append_nil _).symm
  | succ n ih =>
    have hstep : s.pushn c (n + 1) = (s.pushn c n).push c := rfl
    rw [hstep, String.toList_push, ih, List.append_assoc, ← List.replicate_succ']

theorem toDigits_mul_pow {n : Nat} (hn : 0 < n) (k : Nat) :
    Nat.toDigits 10 (n * 10 ^ k) = Nat.toDigits 10 n ++ List.replicate k '0' := by
  induction k with
  | zero => rw [Nat.pow_zero, Nat.mul_one, List.replicate_zero, List.append_nil]
  | succ k ih =>
    have hzero : Nat.toDigits 10 0 = ['0'] := rfl
    have hstep := Nat.toDigits_append_toDigits (b := 10) (n := n * 10 ^ k) (d := 0) (by decide)
      (Nat.mul_pos hn (Nat.pow_pos (by decide))) (by decide)
    rw [Nat.pow_succ', Nat.mul_left_comm, ← hstep.trans (congrArg _ (Nat.add_zero _)), ih, hzero,
      List.append_assoc, ← List.replicate_succ']

theorem positional_natCast {n : Nat} (hn : 0 < n) (k : Nat) :
    positional n k = toString (n * 10 ^ k) := by
  rw [positional, if_pos (Int.natCast_nonneg k), ← String.toList_inj, String.toList_append,
    toList_pushn, Text.toList_natural, Text.toList_natural, toDigits_mul_pow hn]
  rfl

theorem positional_negSucc (n k : Nat) : positional n (.negSucc k) =
    toString (n / 10 ^ (k + 1)) ++ "." ++ String.ofList (lastDigits (k + 1) n) := by
  have hneg : ¬0 ≤ Int.negSucc k := Int.not_le.2 (Int.negSucc_lt_zero k)
  have hplaces : (-Int.negSucc k).toNat = k + 1 := rfl
  have hpadded : ("".pushn '0' (k + 1 + 1 - (toString n).length) ++ toString n).toList =
      Nat.toDigits 10 (n / 10 ^ (k + 1)) ++ lastDigits (k + 1) n := by
    rw [String.toList_append, toList_pushn, ← String.length_toList, Text.toList_natural,
      ← padded_eq]
    rfl
  rw [positional, if_neg hneg]
  simp only [hplaces, hpadded, List.length_append, length_lastDigits, Nat.add_sub_cancel,
    List.take_left, List.drop_left]
  rw [Nat.toString_eq_ofList_toDigits]

theorem not_mem_lastDigits {c : Char} (h : c.isDigit = false) (k n : Nat) :
    c ∉ lastDigits k n := by
  intro hmem
  rw [isDigit_of_mem_lastDigits c hmem] at h
  cases h

theorem decimal?_positional {n : Nat} (hn : n % 10 ≠ 0) (unit : ℤ) :
    Text.decimal? (positional n unit) = some (n * 10 ^ unit : ℚ) := by
  cases unit with
  | ofNat k =>
    rw [Int.ofNat_eq_natCast, positional_natCast (by omega), Text.decimal?_natural, zpow_natCast]
    push_cast
    rfl
  | negSucc k =>
    have hread := natural?_lastDigits (Nat.succ_ne_zero k) n
    have hpoint := not_mem_lastDigits (c := '.') rfl (k + 1) n
    have hlast : n % 10 ^ (k + 1) % 10 ≠ 0 := by
      rwa [Nat.mod_mod_of_dvd _ (dvd_pow_self 10 (Nat.succ_ne_zero k))]
    rw [positional_negSucc, Text.decimal?_places _ (by rwa [String.toList_ofList])
      (by rwa [String.toList_ofList]) hlast, String.length_ofList, length_lastDigits,
      zpow_negSucc, ← div_eq_mul_inv]
    have hsplit := congrArg (Nat.cast (R := ℚ)) (Nat.div_add_mod n (10 ^ (k + 1)))
    have hpow : (10 : ℚ) ^ (k + 1) ≠ 0 := pow_ne_zero _ (by decide)
    push_cast at hsplit
    rw [← hsplit, add_div, mul_div_cancel_left₀ _ hpow]

theorem minus_not_mem_positional {n : Nat} (hn : 0 < n) (unit : ℤ) :
    '-' ∉ (positional n unit).toList := by
  cases unit with
  | ofNat k =>
    rw [Int.ofNat_eq_natCast, positional_natCast hn]
    exact Text.not_mem_natural rfl _
  | negSucc k =>
    rw [positional_negSucc]
    refine Text.not_mem_append (Text.not_mem_append (Text.not_mem_natural rfl _) (by decide)) ?_
    rw [String.toList_ofList]
    exact not_mem_lastDigits rfl _ _

/-- What the text of a double says: a sign and the shortest decimal, or the name of what is no
finite number. -/
def Shows (x : Binary64) (text : String) : Prop :=
  if x.isNaN then text = "NaN"
  else if x.isFinite then ∃ q, Text.signedDecimal? text = some (x.isNegative, q) ∧ Shortest x q
  else text = (if x.isNegative then "-" else "") ++ "inf"

theorem shortest_zero {x : Binary64} (hsig : x.significand = 0) : Shortest x 0 := by
  have hzero : x.absValue = 0 := by rw [Binary64.absValue, hsig, Nat.cast_zero, zero_mul]
  refine ⟨?_, ?_, ?_⟩
  · have hself := x.nearestTo_absValue
    rwa [hzero] at hself
  · intro k r _ _
    exact ⟨0, 0, Nat.pow_pos (by decide), by rw [Nat.cast_zero, zero_mul]⟩
  · intro k r _ _ _
    rw [hzero, sub_zero, abs_zero]
    exact abs_nonneg _

theorem text_shows (x : Binary64) : Shows x (text x) := by
  rw [Shows, text]
  by_cases hnan : x.isNaN = true
  · rw [if_pos hnan, if_pos hnan]
  · rw [if_neg hnan, if_neg hnan]
    by_cases hf : x.isFinite = true
    · simp only [hf, Bool.not_true, Bool.false_eq_true, if_false, if_true]
      by_cases hsig : x.significand = 0
      · rw [if_pos hsig]
        have hread : Text.decimal? "0" = some 0 := Text.decimal?_natural 0
        refine ⟨0, ?_, shortest_zero hsig⟩
        rw [Text.signedDecimal?_sign (by decide), hread]
        rfl
      · rw [if_neg hsig]
        have hlast := shortest_digits hsig hf
        refine ⟨_, ?_, shortest_value hsig hf⟩
        rw [Text.signedDecimal?_sign (minus_not_mem_positional (by omega) _),
          decimal?_positional hlast]
        rfl
    · simp only [hf, Bool.not_false, Bool.false_eq_true, if_false, if_true]

section Same

variable {x y : Binary64} {text : String}

theorem signedDecimal?_nan : Text.signedDecimal? "NaN" = none := by
  rw [Text.signedDecimal?_plain (by decide), Text.decimal?_of_not_natural (by decide) (by decide)]
  rfl

theorem signedDecimal?_inf (negative : Bool) :
    Text.signedDecimal? ((if negative then "-" else "") ++ "inf") = none := by
  rw [Text.signedDecimal?_sign (by decide), Text.decimal?_of_not_natural (by decide) (by decide)]
  rfl

theorem Shows.isFinite_iff (h : Shows x text) :
    x.isFinite = true ↔ Text.signedDecimal? text ≠ none := by
  rw [Shows] at h
  split at h
  · rename_i hnan
    have hf : ¬x.isFinite = true := by
      intro hf
      rw [Binary64.isNaN_of_isFinite hf] at hnan
      cases hnan
    rw [h]
    exact iff_of_false hf (not_not.2 signedDecimal?_nan)
  · split at h
    · rename_i hf
      obtain ⟨q, hread, -⟩ := h
      rw [hread]
      exact iff_of_true hf (Option.some_ne_none _)
    · rename_i hf
      rw [h]
      exact iff_of_false hf (not_not.2 (signedDecimal?_inf x.isNegative))

theorem Shows.isNaN_iff (h : Shows x text) : x.isNaN = true ↔ text = "NaN" := by
  have hf := h.isFinite_iff
  rw [Shows] at h
  split at h
  · rename_i hnan
    exact iff_of_true hnan h
  · rename_i hnan
    refine iff_of_false hnan ?_
    rintro rfl
    rw [if_neg fun hfin => hf.1 hfin signedDecimal?_nan] at h
    revert h
    cases x.isNegative <;> decide

theorem Shows.same (hx : Shows x text) (hy : Shows y text) : x.Same y := by
  by_cases hnan : x.isNaN = true
  · exact .inr ⟨hnan, hy.isNaN_iff.2 (hx.isNaN_iff.1 hnan)⟩
  · have hnan' : ¬y.isNaN = true := fun h => hnan (hx.isNaN_iff.2 (hy.isNaN_iff.1 h))
    have hfin : x.isFinite = true ↔ y.isFinite = true := by rw [hx.isFinite_iff, hy.isFinite_iff]
    refine .inl ?_
    rw [Shows, if_neg hnan] at hx
    rw [Shows, if_neg hnan'] at hy
    by_cases hf : x.isFinite = true
    · have hf' := hfin.1 hf
      rw [if_pos hf] at hx
      rw [if_pos hf'] at hy
      obtain ⟨q, hread, hq⟩ := hx
      obtain ⟨r, hread', hr⟩ := hy
      rw [hread'] at hread
      obtain ⟨hsign, rfl⟩ := Prod.mk.inj (Option.some.inj hread)
      exact Binary64.eq_of_absValue_eq (Binary64.absValue_unique hf hf' hq.rounded hr.rounded)
        hsign.symm
    · rw [if_neg hf] at hx
      rw [if_neg (mt hfin.2 hf)] at hy
      obtain ⟨hexp, hfrac⟩ := Binary64.fields_of_infinite hf hnan
      obtain ⟨hexp', hfrac'⟩ := Binary64.fields_of_infinite (mt hfin.2 hf) hnan'
      have hsign : x.isNegative = y.isNegative := by
        rw [hx] at hy
        revert hy
        cases x.isNegative <;> cases y.isNegative <;> decide
      exact Binary64.eq_of_fields hsign (hexp.trans hexp'.symm) (hfrac.trans hfrac'.symm)

end Same

end Decimal

/-- What the text of a row says of the value there: it shows this value and no other one. -/
def Values.Shows (values : Values) (row : Nat) (text : String) : Prop :=
  match values with
  | .floats xs => ∃ x, xs[row]? = some x ∧ Decimal.Shows x text ∧
      ∀ y, Decimal.Shows y text → x.Same y
  | .ints xs => ∃ n, xs[row]? = some n ∧ text = toString n.toInt ∧
      Text.signed? text = some n.toInt

theorem Values.shows_of_textAt? {values : Values} {row : Nat} {text : String}
    (h : values.textAt? row = some text) : values.Shows row text := by
  cases values with
  | floats xs =>
    obtain ⟨x, hx, rfl⟩ := Option.map_eq_some_iff.1 h
    exact ⟨x, hx, Decimal.text_shows x, fun y => (Decimal.text_shows x).same⟩
  | ints xs =>
    obtain ⟨n, hn, rfl⟩ := Option.map_eq_some_iff.1 h
    exact ⟨n, hn, rfl, Text.signed?_toString n.toInt⟩

end Columnar
