set_option autoImplicit false

/-! # JSON values and their text

The values that this library writes as JSON, and the two ways of writing them: on one line without
spaces, and spread over lines with two spaces for each level. Members are written in the order in
which the value lists them. -/

namespace SelectorExplain

/-- A JSON value. Numbers are natural numbers: nothing here writes others. -/
inductive JsonValue where
  | null
  | bool (b : Bool)
  | nat (n : Nat)
  | str (s : String)
  | arr (items : List JsonValue)
  | obj (members : List (String × JsonValue))
  deriving Repr, Inhabited

namespace JsonValue

/-! ## Strings -/

/-- The lower-case hexadecimal digit of `n < 16`. -/
def hexDigit (n : Nat) : Char :=
  if n < 10 then Char.ofNat (48 + n) else Char.ofNat (87 + n)

/-- How a character is written inside quotes. Quotes, backslashes and control characters are
    escaped, the usual five by a letter and the rest by number; all else stands for itself. -/
def escapeChar (c : Char) : List Char :=
  match c with
  | '"' => ['\\', '"']
  | '\\' => ['\\', '\\']
  | '\x08' => ['\\', 'b']
  | '\t' => ['\\', 't']
  | '\n' => ['\\', 'n']
  | '\x0c' => ['\\', 'f']
  | '\r' => ['\\', 'r']
  | c =>
    if c.toNat < 32 then
      ['\\', 'u', '0', '0', hexDigit (c.toNat / 16), hexDigit (c.toNat % 16)]
    else [c]

/-- A string between quotes. -/
def quote (s : String) : String :=
  String.ofList ('"' :: s.toList.flatMap escapeChar ++ ['"'])

/-! ## Values -/

mutual

/-- The value on one line, without spaces. -/
def compact : JsonValue → String
  | null => "null"
  | bool b => if b then "true" else "false"
  | nat n => toString n
  | str s => quote s
  | arr items => "[" ++ compactItems items ++ "]"
  | obj members => "\x7b" ++ compactMembers members ++ "\x7d"

/-- Items with commas between them. -/
def compactItems : List JsonValue → String
  | [] => ""
  | [v] => v.compact
  | v :: rest => v.compact ++ "," ++ compactItems rest

/-- Members with commas between them. -/
def compactMembers : List (String × JsonValue) → String
  | [] => ""
  | [(key, v)] => quote key ++ ":" ++ v.compact
  | (key, v) :: rest => quote key ++ ":" ++ v.compact ++ "," ++ compactMembers rest

end

/-- A new line at a level. -/
def line (level : Nat) : String := "\n" ++ "".pushn ' ' (2 * level)

mutual

/-- The value over several lines; `level` is the level of the line on which it starts. -/
def prettyAt (level : Nat) : JsonValue → String
  | null => "null"
  | bool b => if b then "true" else "false"
  | nat n => toString n
  | str s => quote s
  | arr [] => "[]"
  | arr items => "[" ++ prettyItems (level + 1) items ++ line level ++ "]"
  | obj [] => "\x7b\x7d"
  | obj members => "\x7b" ++ prettyMembers (level + 1) members ++ line level ++ "\x7d"

/-- Items, each on a line of its own. -/
def prettyItems (level : Nat) : List JsonValue → String
  | [] => ""
  | [v] => line level ++ v.prettyAt level
  | v :: rest => line level ++ v.prettyAt level ++ "," ++ prettyItems level rest

/-- Members, each on a line of its own. -/
def prettyMembers (level : Nat) : List (String × JsonValue) → String
  | [] => ""
  | [(key, v)] => line level ++ quote key ++ ": " ++ v.prettyAt level
  | (key, v) :: rest =>
    line level ++ quote key ++ ": " ++ v.prettyAt level ++ "," ++ prettyMembers level rest

end

/-- The value over several lines. -/
def pretty (v : JsonValue) : String := v.prettyAt 0

/-- A member that is left out when there is nothing to write. -/
def optional (key : String) : Option JsonValue → List (String × JsonValue)
  | none => []
  | some v => [(key, v)]

/-- The value for an optional one, written as `null` when absent. -/
def ofOption : Option JsonValue → JsonValue
  | none => null
  | some v => v

end JsonValue

end SelectorExplain
