import SelectorExplain.Selector.Build
import SelectorExplain.Shape

set_option autoImplicit false

/-! # Reading positions and faults

A reader of JSON text works on a cursor: the characters that are left, and the position reached in
lines and bytes. What goes wrong is a `Problem`; a `Fault` says where. Problems with the text itself
are placed at once. Problems with what the text means surface when a value is complete and have no
place of their own: such a fault is loose, and carries the cursor at which it surfaced until the
list or object around it gives it a place. -/

namespace SelectorExplain

namespace Json

/-! ## Positions -/

/-- A line, counted from one, and the number of bytes on it up to here. -/
structure Position where
  line : Nat := 1
  column : Nat := 0
  deriving DecidableEq, Repr, Inhabited

/-- The position behind a character. -/
def Position.after (p : Position) (c : Char) : Position :=
  if c = '\n' then ⟨p.line + 1, 0⟩ else ⟨p.line, p.column + c.utf8Size⟩

/-- The position behind the first byte of a character. -/
def Position.afterByteOf (p : Position) (c : Char) : Position :=
  if c = '\n' then ⟨p.line + 1, 0⟩ else ⟨p.line, p.column + 1⟩

/-- What is left to read, and where it starts. -/
structure Cursor where
  rest : List Char
  position : Position := {}
  deriving DecidableEq, Repr, Inhabited

/-- The start of a text. -/
def Cursor.ofString (text : String) : Cursor := { rest := text.toList }

/-- The position behind the next byte, or here at the end of the text: where a problem with the next
    character is reported. -/
def Cursor.next (c : Cursor) : Position :=
  match c.rest with
  | [] => c.position
  | ch :: _ => c.position.afterByteOf ch

/-- The cursor behind the next character. -/
def Cursor.skip (c : Cursor) : Cursor :=
  match c.rest with
  | [] => c
  | ch :: rest => ⟨rest, c.position.after ch⟩

/-- The characters that may stand between tokens. -/
def isBlank (c : Char) : Bool := c = ' ' || c = '\n' || c = '\t' || c = '\r'

/-- Skips blanks in front of `rest`. -/
def trimBlanks : (rest : List Char) → Position → Cursor
  | [], p => ⟨[], p⟩
  | c :: rest, p => if isBlank c then trimBlanks rest (p.after c) else ⟨c :: rest, p⟩

/-- The cursor at the next token. -/
def Cursor.trim (c : Cursor) : Cursor := trimBlanks c.rest c.position

/-! ## Problems -/

/-- What may be wrong with a text. -/
inductive Problem where
  | eofList
  | eofObject
  | eofString
  | eofValue
  | expectedColon
  | expectedListEnd
  | expectedObjectEnd
  | expectedWord
  | expectedValue
  | invalidEscape
  | invalidNumber
  | numberOutOfRange
  | loneSurrogate
  | unfinishedSurrogate
  | controlCharacter
  | keyNotString
  | trailingComma
  | trailingCharacters
  | nestedTooDeeply
  | shape (m : Mismatch)
  | tree (e : TreeError)
  deriving DecidableEq, Repr

/-- The wording of a problem. -/
def Problem.message : Problem → String
  | eofList => "EOF while parsing a list"
  | eofObject => "EOF while parsing an object"
  | eofString => "EOF while parsing a string"
  | eofValue => "EOF while parsing a value"
  | expectedColon => "expected `:`"
  | expectedListEnd => "expected `,` or `]`"
  | expectedObjectEnd => "expected `,` or `\x7d`"
  | expectedWord => "expected ident"
  | expectedValue => "expected value"
  | invalidEscape => "invalid escape"
  | invalidNumber => "invalid number"
  | numberOutOfRange => "number out of range"
  | loneSurrogate => "lone leading surrogate in hex escape"
  | unfinishedSurrogate => "unexpected end of hex escape"
  | controlCharacter => "control character (\\u0000-\\u001F) found while parsing a string"
  | keyNotString => "key must be a string"
  | trailingComma => "trailing comma"
  | trailingCharacters => "trailing characters"
  | nestedTooDeeply => "recursion limit exceeded"
  | shape m => m.message Real64.boundedText
  | tree e => e.message

/-- A problem with its place, or with the cursor at which it surfaced. -/
inductive Fault where
  | placed (problem : Problem) (position : Position)
  | loose (problem : Problem) (here : Cursor)
  deriving DecidableEq, Repr

/-- The wording of a fault. One that was never placed names no position. -/
def Fault.message : Fault → String
  | placed problem position =>
    problem.message ++ " at line " ++ toString position.line ++ " column " ++
      toString position.column
  | loose problem _ => problem.message

/-! ## Readers -/

/-- A reader of a part of a text: it answers a value and the cursor behind it, or a fault. -/
abbrev Decoder (α : Type) := StateT Cursor (Except Fault) α

namespace Decoder

variable {α : Type}

/-- A problem that has no place yet. -/
def fail (problem : Problem) : Decoder α := fun c => .error (.loose problem c)

/-- A problem at what has been read. -/
def failHere (problem : Problem) : Decoder α := fun c => .error (.placed problem c.position)

/-- A problem with the next character. -/
def failNext (problem : Problem) : Decoder α := fun c => .error (.placed problem c.next)

/-- The next character, which stays to be read. -/
def peek : Decoder (Option Char) := fun c => .ok (c.rest.head?, c)

/-- The first character of the next token, which stays to be read. -/
def token : Decoder (Option Char) := fun c => .ok (c.trim.rest.head?, c.trim)

/-- Passes over the next character. -/
def eat : Decoder Unit := fun c => .ok ((), c.skip)

end Decoder

end Json

end SelectorExplain
