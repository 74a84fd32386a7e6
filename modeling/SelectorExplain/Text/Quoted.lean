import SelectorExplain.Text.Unprintable

set_option autoImplicit false

/-! # Quoting a text for a report

A report shows a foreign text between double quotes and on one line. Quotes and backslashes get a
backslash, the usual control characters are written by a letter, and whatever else has no glyph of
its own is written as its code point. -/

namespace SelectorExplain

namespace Quoted

/-- A code point in hexadecimal, between braces. -/
def codePoint (c : Char) : String :=
  "\\u\x7b" ++ String.ofList (Nat.toDigits 16 c.toNat) ++ "\x7d"

/-- How one character is shown. -/
def showChar (c : Char) : String :=
  match c with
  | '\x00' => "\\0"
  | '\t' => "\\t"
  | '\r' => "\\r"
  | '\n' => "\\n"
  | '"' => "\\\""
  | '\\' => "\\\\"
  | c => if isUnprintable c then codePoint c else c.toString

/-- How a text is shown. -/
def quote (s : String) : String := "\"" ++ String.join (s.toList.map showChar) ++ "\""

end Quoted

end SelectorExplain
