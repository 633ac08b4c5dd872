import Columnar.Text.Printable

/-! A text in quotation marks. Quotation mark, backslash, tab, line feed, carriage return and the
null character have short escapes; any other character that is not printable is written by its
number, `\u{b}` with lower-case hexadecimal digits. -/

namespace Columnar.Text

def hexadecimal (n : Nat) : String := String.ofList (Nat.toDigits 16 n)

def quotedChar (c : Char) : String :=
  match c with
  | '"' => "\\\""
  | '\\' => "\\\\"
  | '\t' => "\\t"
  | '\n' => "\\n"
  | '\r' => "\\r"
  | '\x00' => "\\0"
  | c => if printable c then c.toString else "\\u\x7b" ++ hexadecimal c.toNat ++ "\x7d"

def quoted (s : String) : String :=
  "\"" ++ String.join (s.toList.map quotedChar) ++ "\""

def quotedList (texts : List String) : String :=
  "[" ++ ", ".intercalate (texts.map quoted) ++ "]"

example : quoted "a\"b" = "\"a\\\"b\"" := by decide +kernel
example : quoted "\u200b" = "\"\\u\x7b200b\x7d\"" := by decide +kernel

end Columnar.Text
