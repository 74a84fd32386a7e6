import SelectorExplain.Json.Cursor

set_option autoImplicit false

/-! # Words, strings and numbers of JSON

The lexemes of JSON with their exact meaning and the exact place of what may be wrong with them.

A string is read up to its closing quote. Escapes by number denote UTF-16 units: a pair of
surrogates is one character, and a surrogate without its partner is refused.

A number is an integer when it has neither fraction nor exponent and fits into 64 bits, and else a
binary64 number. Its digits are gathered into a 64-bit significand, and digits that no longer fit
only count for the exponent; the power of ten is then applied by one multiplication or division. -/

namespace SelectorExplain

namespace Json

/-! ## Words -/

/-- Reads the given characters. -/
def word : List Char → Decoder Unit
  | [] => pure ()
  | expected :: more => do
    match ← Decoder.peek with
    | none => Decoder.failHere .eofValue
    | some c => if c = expected then do Decoder.eat; word more else Decoder.failNext .expectedWord

/-! ## Strings -/

/-- The value of a hexadecimal digit. -/
def hexValue? (c : Char) : Option Nat :=
  if '0' ≤ c ∧ c ≤ '9' then some (c.toNat - 48)
  else if 'a' ≤ c ∧ c ≤ 'f' then some (c.toNat - 87)
  else if 'A' ≤ c ∧ c ≤ 'F' then some (c.toNat - 55)
  else none

/-- The UTF-16 unit of four hexadecimal digits. -/
def unit? (a b c d : Char) : Option Nat := do
  return (((← hexValue? a) * 16 + (← hexValue? b)) * 16 + (← hexValue? c)) * 16 + (← hexValue? d)

def isLeadingSurrogate (u : Nat) : Bool := 0xD800 ≤ u && u ≤ 0xDBFF

def isTrailingSurrogate (u : Nat) : Bool := 0xDC00 ≤ u && u ≤ 0xDFFF

/-- The character of a pair of surrogates. -/
def pairChar (leading trailing : Nat) : Char :=
  Char.ofNat ((leading - 0xD800) * 1024 + (trailing - 0xDC00) + 0x10000)

/-- The position `n` bytes on, or that of the end of the text if it is nearer, and whether there
    were as many. -/
def bytesOn : (n : Nat) → List Char → Position → Position × Bool
  | 0, _, p => (p, true)
  | _, [], p => (p, false)
  | n, c :: rest, p =>
    if c.utf8Size ≤ n then bytesOn (n - c.utf8Size) rest (p.after c)
    else (⟨p.line, p.column + n⟩, true)

/-- What is wrong with four bytes that should be hexadecimal digits: they are others, or there are
    fewer of them. -/
def hexFault (rest : List Char) (p : Position) : Fault :=
  match bytesOn 4 rest p with
  | (q, true) => .placed .invalidEscape q
  | (q, false) => .placed .eofString q

/-- What a letter after a backslash stands for. -/
def escaped? : Char → Option Char
  | '"' => some '"'
  | '\\' => some '\\'
  | '/' => some '/'
  | 'b' => some '\x08'
  | 'f' => some '\x0c'
  | 'n' => some '\n'
  | 'r' => some '\r'
  | 't' => some '\t'
  | _ => none

/-- The position `n` characters of one byte on. -/
def Position.add (p : Position) (n : Nat) : Position := ⟨p.line, p.column + n⟩

/-- What is wrong where the second escape of a pair of surrogates should stand. -/
def pairFault (rest : List Char) (p : Position) : Fault :=
  match rest with
  | [] => .placed .eofString p
  | '\\' :: more =>
    match more with
    | [] => .placed .eofString (p.add 1)
    | 'u' :: digits => hexFault digits (p.add 2)
    | c :: _ => .placed .unfinishedSurrogate ((p.add 1).afterByteOf c)
  | c :: _ => .placed .unfinishedSurrogate (p.afterByteOf c)

/-- A character in front of what has been read. -/
def prepend (c : Char) : Except Fault (List Char × Cursor) → Except Fault (List Char × Cursor)
  | .ok (text, here) => .ok (c :: text, here)
  | .error f => .error f

/-- Reads what is left of a string behind its opening quote: the characters it denotes, and the
    cursor behind the closing quote. -/
def stringBody : List Char → Position → Except Fault (List Char × Cursor)
  | [], p => .error (.placed .eofString p)
  | '"' :: rest, p => .ok ([], ⟨rest, p.add 1⟩)
  | '\\' :: 'u' :: a :: b :: c :: d :: rest, p =>
    match unit? a b c d with
    | none => .error (hexFault (a :: b :: c :: d :: rest) (p.add 2))
    | some u =>
      if isTrailingSurrogate u then .error (.placed .loneSurrogate (p.add 6))
      else if isLeadingSurrogate u then
        match rest with
        | '\\' :: 'u' :: e :: f :: g :: h :: rest' =>
          match unit? e f g h with
          | none => .error (hexFault (e :: f :: g :: h :: rest') (p.add 8))
          | some t =>
            if isTrailingSurrogate t then prepend (pairChar u t) (stringBody rest' (p.add 12))
            else .error (.placed .loneSurrogate (p.add 12))
        | rest => .error (pairFault rest (p.add 6))
      else prepend (Char.ofNat u) (stringBody rest (p.add 6))
  | '\\' :: 'u' :: rest, p => .error (hexFault rest (p.add 2))
  | ['\\'], p => .error (.placed .eofString (p.add 1))
  | '\\' :: c :: rest, p =>
    match escaped? c with
    | some e => prepend e (stringBody rest (p.add 2))
    | none => .error (.placed .invalidEscape ((p.add 1).afterByteOf c))
  | c :: rest, p =>
    if c.toNat < 32 then .error (.placed .controlCharacter (p.after c))
    else prepend c (stringBody rest (p.after c))

/-- Reads a string from behind its opening quote. -/
def stringRest : Decoder String := fun c =>
  match stringBody c.rest c.position with
  | .ok (text, here) => .ok (String.ofList text, here)
  | .error f => .error f

/-! ## Numbers -/

/-- A number as it is read. -/
inductive Number where
  | integer (n : Int)
  | float (x : Float)

/-- Reads the digits in front of the cursor. -/
def digits : Decoder (List Nat) := fun c =>
  let text := c.rest.takeWhile Char.isDigit
  .ok (text.map fun d => d.toNat - 48, ⟨c.rest.drop text.length, c.position.add text.length⟩)

/-- A significand that grows digit by digit as long as it fits into 64 bits. -/
structure Significand where
  value : Nat
  /-- Whether a digit has been dropped. -/
  full : Bool
  /-- The power of ten by which `value` is to be multiplied. -/
  exponent : Int

/-- One more digit before the point. Once a digit is dropped, so are all that follow. -/
def Significand.before (s : Significand) (digit : Nat) : Significand :=
  if s.full || Nat.pow 2 64 ≤ s.value * 10 + digit then
    { s with full := true, exponent := s.exponent + 1 }
  else { s with value := s.value * 10 + digit }

/-- One more digit behind the point. Once one of these is dropped, so are all that follow. -/
def Significand.behind (s : Significand) (digit : Nat) : Significand :=
  if s.full || Nat.pow 2 64 ≤ s.value * 10 + digit then { s with full := true }
  else { s with value := s.value * 10 + digit, exponent := s.exponent - 1 }

/-- Applies a power of ten: a table of powers reaches up to 10^308, and a number that is to become
    smaller still is first divided by that. A number beyond the range has no value. -/
def applyExponent : (steps : Nat) → Float → Int → Option Float
  | 0, x, _ => some x
  | steps + 1, x, e =>
    if e.natAbs ≤ 308 then
      let power := Float.ofScientific 1 false e.natAbs
      if 0 ≤ e then (if (x * power).isInf then none else some (x * power)) else some (x / power)
    else if x == 0 then some x
    else if 0 ≤ e then none
    else applyExponent steps (x / Float.ofScientific 1 false 308) (e + 308)

/-- The binary64 number of a significand. -/
def Significand.toFloat (s : Significand) (exponent : Int) : Decoder Float :=
  match applyExponent 4 (UInt64.ofNat s.value).toFloat exponent with
  | some x => pure x
  | none => Decoder.failHere .numberOutOfRange

/-- The digits of an exponent after its sign. One that outgrows 31 bits is not read on: with it the
    number is zero, or out of range. -/
def exponentDigits (zeroOrSmall : Bool) : (value : Nat) → List Char → Position →
    Except Fault (Option Nat × Cursor)
  | value, [], p => .ok (some value, ⟨[], p⟩)
  | value, c :: rest, p =>
    if c.isDigit then
      let grown := value * 10 + (c.toNat - 48)
      if Nat.pow 2 31 ≤ grown then
        if zeroOrSmall then
          .ok (none, ⟨rest.dropWhile Char.isDigit,
            p.add (1 + (rest.takeWhile Char.isDigit).length)⟩)
        else .error (.placed .numberOutOfRange (p.add 1))
      else exponentDigits zeroOrSmall grown rest (p.add 1)
    else .ok (some value, ⟨c :: rest, p⟩)

/-- Reads an exponent from behind its letter and answers the number with it. -/
def exponentPart (s : Significand) : Decoder Float := do
  let small := (← Decoder.peek) == some '-'
  if small || (← Decoder.peek) == some '+' then Decoder.eat
  match ← Decoder.peek with
  | none => Decoder.failHere .eofValue
  | some c =>
    if c.isDigit then
      let value ← (fun here => exponentDigits (small || s.value == 0) 0 here.rest here.position :
        Decoder (Option Nat))
      match value with
      | none => return 0
      | some e => s.toFloat (if small then s.exponent - e else s.exponent + e)
    else Decoder.failNext .invalidNumber

/-- Reads the fraction from behind the point, and an exponent if there is one. -/
def fractionPart (s : Significand) : Decoder Float := do
  match ← digits with
  | [] => do
    match ← Decoder.peek with
    | none => Decoder.failNext .eofValue
    | some _ => Decoder.failNext .invalidNumber
  | ds =>
    let s := ds.foldl Significand.behind { s with full := false }
    match ← Decoder.peek with
    | some 'e' | some 'E' => do
      Decoder.eat
      exponentPart s
    | _ => s.toFloat s.exponent

/-- The number of an integer part, with what follows it. -/
def numberAfter (negative : Bool) (whole : List Nat) : Decoder Number := do
  let sign (x : Float) : Number := .float (if negative then -x else x)
  let s : Significand := whole.foldl Significand.before ⟨0, false, 0⟩
  match ← Decoder.peek with
  | some '.' => do
    Decoder.eat
    return sign (← fractionPart s)
  | some 'e' | some 'E' => do
    Decoder.eat
    return sign (← exponentPart s)
  | _ =>
    if s.full then return sign (← s.toFloat s.exponent)
    else if !negative then return .integer s.value
    else if s.value = 0 ∨ Nat.pow 2 63 < s.value then return sign (UInt64.ofNat s.value).toFloat
    else return .integer (-s.value)

/-- Reads a number from behind its sign. -/
def number (negative : Bool) : Decoder Number := do
  match ← Decoder.peek with
  | none => Decoder.failHere .eofValue
  | some c =>
    if c = '0' then do
      Decoder.eat
      match ← Decoder.peek with
      | some d => if d.isDigit then Decoder.failNext .invalidNumber else numberAfter negative [0]
      | none => numberAfter negative [0]
    else if c.isDigit then do
      numberAfter negative (← digits)
    else Decoder.failNext .invalidNumber

end Json

end SelectorExplain
