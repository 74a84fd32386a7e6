set_option autoImplicit false

/-! # Keys as they are written

A key without quotes consists of letters, digits, dashes and underscores. The written form of a key
is the plainest one: bare if it may be, else in double quotes if nothing in it stands in the way of
that, else in single quotes if these can hold it, and else in double quotes with escapes. -/

namespace SelectorExplain

namespace Toml

/-- A character of a key without quotes. -/
def isKeyChar (c : Char) : Bool := c.isAlphanum || c = '_' || c = '-'

/-- A control character that single quotes cannot hold. -/
def isControl (c : Char) : Bool := (c < ' ' && c != '\t') || c = '\x7f'

/-- A character between double quotes. -/
def quotedChar (c : Char) : List Char :=
  match c with
  | '\x08' => ['\\', 'b']
  | '\t' => ['\\', 't']
  | '\n' => ['\\', 'n']
  | '\x0c' => ['\\', 'f']
  | '\r' => ['\\', 'r']
  | '"' => ['\\', '"']
  | '\\' => ['\\', '\\']
  | c =>
    if isControl c then
      ['\\', 'u', '0', '0', Nat.digitChar (c.toNat / 16), (Nat.digitChar (c.toNat % 16)).toUpper]
    else [c]

/-- The written form of a key. -/
def writtenKey (key : String) : String :=
  let chars := key.toList
  let quoted := String.ofList ('"' :: chars.flatMap quotedChar ++ ['"'])
  if !chars.isEmpty && chars.all isKeyChar then key
  else if chars.any isControl then quoted
  else if !chars.contains '"' && !chars.contains '\\' then quoted
  else if !chars.contains '\'' then "'" ++ key ++ "'"
  else quoted

end Toml

end SelectorExplain
