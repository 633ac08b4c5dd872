import Columnar.Settings.Data

/-! The words and marks of a TOML text. A line ends with a line feed, also after a carriage return;
comments are dropped. A quoted text is one token with its escapes resolved, and tells whether three
marks opened it. -/

namespace Columnar.Settings.Toml

inductive Token
  | blank (text : List Char)
  | newline
  | equals
  | period
  | comma
  | colon
  | plus
  | leftBrace
  | rightBrace
  | leftBracket
  | rightBracket
  | word (letters : List Char)
  | quoted (text : String) (multiline : Bool)
  deriving DecidableEq

def isBlank (c : Char) : Bool := c = ' ' || c = '\t'

def isLetter (c : Char) : Bool :=
  'A' ≤ c && c ≤ 'Z' || 'a' ≤ c && c ≤ 'z' || '0' ≤ c && c ≤ '9' || c = '-' || c = '_'

def isVisible (c : Char) : Bool := c = '\t' || ' ' ≤ c

def isPlain (c : Char) : Bool := isVisible c && c ≠ '\x7f'

def foldLines : List Char → List Char
  | '\r' :: '\n' :: cs => '\n' :: foldLines cs
  | c :: cs => c :: foldLines cs
  | [] => []

def escape? : Char → Option Char
  | '"' => some '"'
  | '\\' => some '\\'
  | 'b' => some '\x08'
  | 'f' => some '\x0c'
  | 'n' => some '\n'
  | 'r' => some '\r'
  | 't' => some '\t'
  | _ => none

/-- A backslash at the end of a line takes the blanks and line ends after it away. -/
def joinLine? (cs : List Char) : Option (List Char) :=
  match cs.dropWhile isBlank with
  | '\n' :: rest => some (rest.dropWhile fun c => isBlank c || c = '\n')
  | _ => none

def escaped (multiline : Bool) : List Char → Option (Option Char × List Char)
  | 'u' :: cs => (charOf? (cs.take 4)).bind fun c =>
      if cs.length < 4 then none else some (some c, cs.drop 4)
  | 'U' :: cs => (charOf? (cs.take 8)).bind fun c =>
      if cs.length < 8 then none else some (some c, cs.drop 8)
  | e :: cs =>
    match escape? e with
    | some c => some (some c, cs)
    | none => if multiline then (joinLine? (e :: cs)).map fun rest => (none, rest) else none
  | [] => none

theorem joinLine?_length {cs rest : List Char} (h : joinLine? cs = some rest) :
    rest.length < cs.length := by
  unfold joinLine? at h
  split at h
  · next tail heq =>
    have h₁ := (List.dropWhile_suffix (l := cs) isBlank).length_le
    have h₂ := (List.dropWhile_suffix (l := tail) fun c => isBlank c || c = '\n').length_le
    simp only [Option.some.injEq] at h
    subst h
    simp only [heq, List.length_cons] at h₁
    omega
  · exact absurd h (by simp)

theorem escaped_length {multiline : Bool} {cs rest : List Char} {c : Option Char}
    (h : escaped multiline cs = some (c, rest)) : rest.length < cs.length := by
  unfold escaped at h
  split at h
  · simp only [Option.bind_eq_some_iff, Option.ite_none_left_eq_some, Option.some.injEq,
      Prod.mk.injEq] at h
    obtain ⟨_, _, _, _, rfl⟩ := h
    rw [List.length_drop, List.length_cons]
    omega
  · simp only [Option.bind_eq_some_iff, Option.ite_none_left_eq_some, Option.some.injEq,
      Prod.mk.injEq] at h
    obtain ⟨_, _, _, _, rfl⟩ := h
    rw [List.length_drop, List.length_cons]
    omega
  · split at h
    · simp only [Option.some.injEq, Prod.mk.injEq] at h
      obtain ⟨_, rfl⟩ := h
      simp
    · split at h
      · simp only [Option.map_eq_some_iff, Prod.mk.injEq] at h
        obtain ⟨_, hj, _, rfl⟩ := h
        exact joinLine?_length hj
      · exact absurd h (by simp)
  · exact absurd h (by simp)

/-- Up to two marks directly after the three closing ones belong to the text. -/
def close (mark : Char) (acc : List Char) (cs : List Char) : String × List Char :=
  let extra := (cs.take 2).takeWhile (· = mark)
  (String.ofList (acc.reverse ++ extra), cs.drop extra.length)

def quotedText (mark : Char) (multiline : Bool) (acc : List Char) :
    List Char → Option (String × List Char)
  | [] => none
  | c :: cs =>
    if c = mark then
      if !multiline then some (String.ofList acc.reverse, cs)
      else if cs.take 2 = [mark, mark] then some (close mark acc (cs.drop 2))
      else quotedText mark multiline (c :: acc) cs
    else if c = '\\' ∧ mark = '"' then
      match _h : escaped multiline cs with
      | some (e, rest) => quotedText mark multiline (e.toList ++ acc) rest
      | none => none
    else if c = '\n' then if multiline then quotedText mark multiline (c :: acc) cs else none
    else if isPlain c then quotedText mark multiline (c :: acc) cs
    else none
termination_by cs => cs.length
decreasing_by
  all_goals simp_wf
  have := escaped_length _h
  omega

def quoted (mark : Char) (cs : List Char) : Option (Token × List Char) :=
  if cs.take 2 = [mark, mark] then
    let body := match cs.drop 2 with
      | '\n' :: rest => rest
      | rest => rest
    (quotedText mark true [] body).map fun (s, rest) => (.quoted s true, rest)
  else (quotedText mark false [] cs).map fun (s, rest) => (.quoted s false, rest)

def mark? : Char → Option Token
  | '\n' => some .newline
  | '=' => some .equals
  | '.' => some .period
  | ',' => some .comma
  | ':' => some .colon
  | '+' => some .plus
  | '\x7b' => some .leftBrace
  | '\x7d' => some .rightBrace
  | '[' => some .leftBracket
  | ']' => some .rightBracket
  | _ => none

def next (c : Char) (cs : List Char) : Option (Option Token × List Char) :=
  if isBlank c then some (some (.blank (c :: cs.takeWhile isBlank)), cs.dropWhile isBlank)
  else if c = '#' then some (none, cs.dropWhile isVisible)
  else if c = '"' ∨ c = '\'' then (quoted c cs).map fun (t, rest) => (some t, rest)
  else if isLetter c then some (some (.word (c :: cs.takeWhile isLetter)), cs.dropWhile isLetter)
  else (mark? c).map fun t => (some t, cs)

/-- The tokens of a text. Every token takes at least one character, so their number bounds
`steps`. -/
def tokensFrom (steps : Nat) (acc : Array Token) : List Char → Option (List Token)
  | [] => some acc.toList
  | c :: cs =>
    match steps with
    | 0 => none
    | steps + 1 =>
      match next c cs with
      | none => none
      | some (t, rest) => tokensFrom steps (t.elim acc acc.push) rest

def tokens (s : String) : Option (List Token) :=
  let cs := match s.toList with
    | '\ufeff' :: cs => cs
    | cs => cs
  let cs := foldLines cs
  tokensFrom cs.length #[] cs

end Columnar.Settings.Toml
