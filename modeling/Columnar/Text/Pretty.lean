import Columnar.Text.Quoted

/-! Structured text in the notation of JavaScript objects, one item to a line and two blanks for each
level. Texts are quoted; quotation mark, backslash and the control characters are escaped, and every
other character stands for itself. -/

namespace Columnar.Text

inductive Tree
  | number (n : Nat)
  | text (s : String)
  | list (items : List Tree)
  | record (fields : List (String × Tree))

def escapedChar (c : Char) : String :=
  match c with
  | '"' => "\\\""
  | '\\' => "\\\\"
  | '\x08' => "\\b"
  | '\t' => "\\t"
  | '\n' => "\\n"
  | '\x0c' => "\\f"
  | '\r' => "\\r"
  | c =>
    if c.toNat < 0x20 then
      let digits := hexadecimal c.toNat
      "\\u" ++ "".pushn '0' (4 - digits.length) ++ digits
    else c.toString

def escaped (s : String) : String :=
  "\"" ++ String.join (s.toList.map escapedChar) ++ "\""

namespace Tree

def newLine (level : Nat) : String := "\n" ++ "".pushn ' ' (2 * level)

mutual

def render (level : Nat) : Tree → String
  | .number n => toString n
  | .text s => escaped s
  | .list [] => "[]"
  | .list (item :: items) =>
    "[" ++ newLine (level + 1) ++ render (level + 1) item ++ renderItems (level + 1) items ++
      newLine level ++ "]"
  | .record [] => "\x7b\x7d"
  | .record ((name, value) :: fields) =>
    "\x7b" ++ newLine (level + 1) ++ escaped name ++ ": " ++ render (level + 1) value ++
      renderFields (level + 1) fields ++ newLine level ++ "\x7d"

def renderItems (level : Nat) : List Tree → String
  | [] => ""
  | item :: items => "," ++ newLine level ++ render level item ++ renderItems level items

def renderFields (level : Nat) : List (String × Tree) → String
  | [] => ""
  | (name, value) :: fields =>
    "," ++ newLine level ++ escaped name ++ ": " ++ render level value ++
      renderFields level fields

end

def pretty (t : Tree) : String := t.render 0

end Tree
end Columnar.Text
