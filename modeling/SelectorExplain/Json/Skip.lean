import SelectorExplain.Json.Lexeme

set_option autoImplicit false

/-! # Passing over a value

The values of unknown members are checked for their syntax and for nothing else: numbers may be out
of any range, surrogates need no partner, and brackets may be nested as deeply as they like. So the
open brackets are kept in a list, and the text is gone through once, one lexeme at a time. -/

namespace SelectorExplain

namespace Json

/-! ## Strings and numbers -/

/-- Passes over what is left of a string behind its opening quote. -/
def skipStringBody : List Char → Position → Except Fault Cursor
  | [], p => .error (.placed .eofString p)
  | '"' :: rest, p => .ok ⟨rest, p.add 1⟩
  | '\\' :: 'u' :: a :: b :: c :: d :: rest, p =>
    match unit? a b c d with
    | none => .error (hexFault (a :: b :: c :: d :: rest) (p.add 2))
    | some _ => skipStringBody rest (p.add 6)
  | '\\' :: 'u' :: rest, p => .error (hexFault rest (p.add 2))
  | ['\\'], p => .error (.placed .eofString (p.add 1))
  | '\\' :: c :: rest, p =>
    match escaped? c with
    | some _ => skipStringBody rest (p.add 2)
    | none => .error (.placed .invalidEscape ((p.add 1).afterByteOf c))
  | c :: rest, p =>
    if c.toNat < 32 then .error (.placed .controlCharacter p) else skipStringBody rest (p.after c)

/-- Passes over a string from behind its opening quote. -/
def skipString : Decoder Unit := fun c =>
  match skipStringBody c.rest c.position with
  | .ok here => .ok ((), here)
  | .error f => .error f

/-- Passes over an exponent from behind its letter. -/
def skipExponent : Decoder Unit := do
  match ← Decoder.peek with
  | some '+' | some '-' => Decoder.eat
  | _ => pure ()
  match ← digits with
  | [] => Decoder.failNext .invalidNumber
  | _ => pure ()

/-- Passes over the rest of a number behind its integer part. -/
def skipNumberTail : Decoder Unit := do
  match ← Decoder.peek with
  | some '.' => do
    Decoder.eat
    match ← digits with
    | [] => Decoder.failNext .invalidNumber
    | _ => do
      match ← Decoder.peek with
      | some 'e' | some 'E' => do
        Decoder.eat
        skipExponent
      | _ => pure ()
  | some 'e' | some 'E' => do
    Decoder.eat
    skipExponent
  | _ => pure ()

/-- Passes over a number from behind its sign. -/
def skipNumber : Decoder Unit := do
  match ← Decoder.peek with
  | some '0' => do
    Decoder.eat
    match ← Decoder.peek with
    | some c => if c.isDigit then Decoder.failNext .invalidNumber else skipNumberTail
    | none => skipNumberTail
  | _ => do
    match ← digits with
    | [] => Decoder.failNext .invalidNumber
    | _ => skipNumberTail

/-! ## Values -/

/-- A kind of bracket that has been opened. -/
inductive Bracket where
  | list
  | object
  deriving DecidableEq, Repr

/-- Reads the quote that opens a key. -/
def keyQuote (atEnd : Problem) : Decoder Unit := do
  match ← Decoder.token with
  | none => Decoder.failNext atEnd
  | some '"' => Decoder.eat
  | some _ => Decoder.failNext .keyNotString

/-- Reads the colon behind a key. -/
def colon : Decoder Unit := do
  match ← Decoder.token with
  | none => Decoder.failNext .eofObject
  | some ':' => Decoder.eat
  | some _ => Decoder.failNext .expectedColon

/-- Passes over a key and its colon. -/
def skipKey : Decoder Unit := do
  keyQuote .eofObject
  skipString
  colon

/-- Passes over a scalar or an opening bracket and answers the bracket that was opened. -/
def skipStart : Decoder (Option Bracket) := do
  match ← Decoder.token with
  | none => Decoder.failNext .eofValue
  | some c =>
    match c with
    | 'n' => do Decoder.eat; word ['u', 'l', 'l']; return none
    | 't' => do Decoder.eat; word ['r', 'u', 'e']; return none
    | 'f' => do Decoder.eat; word ['a', 'l', 's', 'e']; return none
    | '-' => do Decoder.eat; skipNumber; return none
    | '"' => do Decoder.eat; skipString; return none
    | '[' => do Decoder.eat; return some .list
    | '\x7b' => do Decoder.eat; return some .object
    | c => if c.isDigit then do skipNumber; return none else Decoder.failNext .expectedValue

/-- The character that closes a bracket. -/
def Bracket.closing : Bracket → Char
  | list => ']'
  | object => '\x7d'

/-- What is wrong when the text ends inside a bracket. -/
def Bracket.unclosed : Bracket → Problem
  | list => .eofList
  | object => .eofObject

/-- What is wrong when neither a comma nor the closing bracket follows a value. -/
def Bracket.expectedEnd : Bracket → Problem
  | list => .expectedListEnd
  | object => .expectedObjectEnd

/-- Goes on inside open brackets, the innermost first, until the outermost is closed; `started` says
    that a value stands before this place. Each round reads at least one character, so the text that
    was left at the start bounds the number of rounds. -/
def skipInside :
    (budget : List Char) → (started : Bool) → (opened : List Bracket) → Decoder Unit
  | _, _, [] => pure ()
  | [], _, bracket :: _ => Decoder.failNext bracket.unclosed
  | _ :: budget, started, bracket :: opened => do
    match ← Decoder.token with
    | none => Decoder.failNext bracket.unclosed
    | some c =>
      if c = bracket.closing then do
        Decoder.eat
        skipInside budget true opened
      else do
        if started then
          if c = ',' then Decoder.eat else Decoder.failNext bracket.expectedEnd
        if bracket = .object then skipKey
        match ← skipStart with
        | some inner => skipInside budget false (inner :: bracket :: opened)
        | none => skipInside budget true (bracket :: opened)

/-- Passes over a value. -/
def skipValue : Decoder Unit := fun c =>
  match skipStart c with
  | .ok (none, here) => .ok ((), here)
  | .ok (some bracket, here) => skipInside c.rest false [bracket] here
  | .error f => .error f

end Json

end SelectorExplain
