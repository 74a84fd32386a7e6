import SelectorExplain.Toml.Lexeme

set_option autoImplicit false

/-! # Numbers, dates and times of TOML

A value that starts with a digit or a sign is a date or a time if its first field is followed by the
mark of one, else a floating point number if its integer part is followed by a point or an exponent,
and else an integer. An underscore may stand between two digits. -/

namespace SelectorExplain

namespace Toml

/-! ## Dates and times -/

/-- The number of two digits, and the rest. -/
def twoDigits? : List Char → Option (Nat × List Char)
  | a :: b :: rest =>
    if a.isDigit && b.isDigit then some ((a.toNat - 48) * 10 + (b.toNat - 48), rest) else none
  | _ => none

/-- Reads two digits with a value from `low` to `high`. -/
def field (about : String) (low high : Nat) (text : List Char) : Except Flaw (Nat × List Char) :=
  match twoDigits? text with
  | none => .error { about := some about }
  | some (n, rest) =>
    if low ≤ n ∧ n ≤ high then .ok (n, rest)
    else .error { about := some about, breach := some .outOfRange }

/-- Passes over the mark between two fields. -/
def mark (about : String) (c : Char) : List Char → Except Flaw (List Char)
  | d :: rest => if d = c then .ok rest else .error { about := some about }
  | [] => .error { about := some about }

/-- The text behind an hour and its colon, if these come first. -/
def hour? (text : List Char) : Option (List Char) :=
  match twoDigits? text with
  | some (n, ':' :: rest) => if n ≤ 23 then some rest else none
  | _ => none

/-- Reads a time from behind its hour: minutes, seconds and a fraction. -/
def timeRest (about : String) (text : List Char) : Except Flaw (List Char) := do
  let (_, text) ← field about 0 59 text
  let text ← mark about ':' text
  let (_, text) ← field about 0 60 text
  match text with
  | '.' :: d :: rest => return if d.isDigit then rest.dropWhile Char.isDigit else text
  | _ => return text

/-- Reads the offset of a time, if there is one. -/
def offset (text : List Char) : Except Flaw (List Char) := do
  match text with
  | c :: rest =>
    if c = 'Z' ∨ c = 'z' then return rest
    else if c = '+' ∨ c = '-' then
      let (_, text) ← field "time offset" 0 23 rest
      let text ← mark "time offset" ':' text
      let (_, text) ← field "time offset" 0 59 text
      return text
    else return text
  | [] => return []

def isLeapYear (year : Nat) : Bool := year % 4 = 0 && (year % 100 ≠ 0 || year % 400 = 0)

/-- The number of days of a month. -/
def daysIn (year month : Nat) : Nat :=
  if month = 2 then (if isLeapYear year then 29 else 28)
  else if month = 4 ∨ month = 6 ∨ month = 9 ∨ month = 11 then 30
  else 31

/-- Reads a date from behind its year, and a time if one follows. -/
def dateRest (year : Nat) (text : List Char) : Except Flaw (List Char) := do
  let about := "date-time"
  let (month, text) ← field about 1 12 text
  let text ← mark about '-' text
  let (day, text) ← field about 1 31 text
  if daysIn year month < day then .error { about := some about, breach := some .outOfRange }
  else
    match text with
    | c :: rest =>
      if c = 'T' ∨ c = 't' ∨ c = ' ' then
        match hour? rest with
        | some rest => offset (← timeRest about rest)
        | none => return text
      else return text
    | [] => return []

/-- The year of a date and the text behind its dash, if these come first. -/
def year? : List Char → Option (Nat × List Char)
  | a :: b :: c :: d :: '-' :: rest =>
    if [a, b, c, d].all Char.isDigit then
      some ([a, b, c, d].foldl (fun n d => n * 10 + (d.toNat - 48)) 0, rest)
    else none
  | _ => none

/-- Reads a date or a time, if there is one. -/
def datetime? (text : List Char) : Option (Except Flaw (List Char)) :=
  match year? text with
  | some (year, rest) => some (dateRest year rest)
  | none => (hour? text).map (timeRest "time")

/-! ## Digits -/

/-- Reads the digits behind the first one. -/
def moreDigits (isDigit : Char → Bool) (f : Flaw) :
    List Char → Except Flaw (List Char × List Char)
  | [] => .ok ([], [])
  | ['_'] => .error f
  | '_' :: c :: rest => do
    if isDigit c then
      let (ds, rest) ← moreDigits isDigit f rest
      return (c :: ds, rest)
    else .error f
  | c :: rest => do
    if isDigit c then
      let (ds, rest) ← moreDigits isDigit f rest
      return (c :: ds, rest)
    else return ([], c :: rest)

/-- Reads at least one digit; `first` is the flaw of a text without any, and `next` that of an
    underscore without a digit behind it. -/
def someDigits (isDigit : Char → Bool) (first next : Flaw) :
    List Char → Except Flaw (List Char × List Char)
  | [] => .error first
  | c :: rest => do
    if isDigit c then
      let (ds, rest) ← moreDigits isDigit next rest
      return (c :: ds, rest)
    else .error first

/-- The number of a row of digits. -/
def numberOf (base : Nat) (ds : List Char) : Nat :=
  ds.foldl (fun n d => n * base + (hexValue? d).getD 0) 0

/-- Reads the digits of a decimal integer, if there are any: a zero is followed by no others. -/
def decimal? : List Char → Option (Except Flaw (List Char × List Char))
  | '0' :: rest => some (.ok (['0'], rest))
  | c :: rest =>
    if c.isDigit then
      let f := Flaw.invalid "integer" ["digit"]
      some (someDigits Char.isDigit f f (c :: rest))
    else none
  | [] => none

/-! ## Numbers -/

/-- An integer of 64 bits. -/
def integer (n : Int) : Except Flaw Value :=
  let bound : Int := Nat.pow 2 63
  if n < -bound then .error (Breach.flaw .tooSmall)
  else if bound ≤ n then .error (Breach.flaw .tooLarge)
  else .ok (.integer n)

/-- Reads an integer in another base from behind its mark. -/
def based (base : Nat) (about : String) (text : List Char) : Except Flaw (Value × List Char) := do
  let isDigit (c : Char) : Bool := match hexValue? c with
    | some v => v < base
    | none => false
  let (ds, rest) ← someDigits isDigit (.invalid about []) (.invalid about ["digit"]) text
  return (← integer (numberOf base ds), rest)

/-- The flaw of a floating point number. -/
def badFloat (expected : List String) : Flaw := .invalid "floating-point number" expected

/-- Reads the digits behind a point, if there is one. -/
def fraction? (text : List Char) : Except Flaw (Option (List Char) × List Char) := do
  match text with
  | '.' :: rest =>
    let (ds, rest) ← someDigits Char.isDigit (badFloat ["digit"]) (badFloat ["digit", "digit"]) rest
    return (some ds, rest)
  | _ => return (none, text)

/-- Reads an exponent, if there is one. -/
def exponent? (text : List Char) : Except Flaw (Option Int × List Char) := do
  match text with
  | c :: rest =>
    if c = 'e' ∨ c = 'E' then
      let digits := match rest with
        | '+' :: more => more
        | '-' :: more => more
        | more => more
      let (ds, more) ← someDigits Char.isDigit (badFloat []) (badFloat ["digit"]) digits
      let n : Int := numberOf 10 ds
      return (some (if rest.head? == some '-' then -n else n), more)
    else return (none, text)
  | [] => return (none, [])

/-- Reads what follows the integer part of a number. -/
def numberRest (negative : Bool) (whole text : List Char) : Except Flaw (Value × List Char) := do
  let (fraction, rest) ← fraction? text
  let (exponent, rest) ← exponent? rest
  if fraction.isNone && exponent.isNone then
    let n : Int := numberOf 10 whole
    return (← integer (if negative then -n else n), rest)
  else
    let behind := fraction.getD []
    match Real64.nearest .up negative (numberOf 10 (whole ++ behind))
      (exponent.getD 0 - behind.length) with
    | .infinite false => .error (badFloat [])
    | x => return (.float x, rest)

/-- Reads a number from behind its sign, if there was one. -/
def number (signed negative : Bool) (text : List Char) : Except Flaw (Value × List Char) :=
  match signed, text with
  | false, '0' :: 'x' :: rest => based 16 "hexadecimal integer" rest
  | false, '0' :: 'o' :: rest => based 8 "octal integer" rest
  | false, '0' :: 'b' :: rest => based 2 "binary integer" rest
  | _, 'i' :: 'n' :: 'f' :: rest => .ok (.float (.infinite negative), rest)
  | _, 'n' :: 'a' :: 'n' :: rest => .ok (.float .nan, rest)
  | _, text =>
    match decimal? text with
    | none => .error (Flaw.invalid "integer" []).asTentative
    | some digits => do
      let (whole, rest) ← digits
      numberRest negative whole rest

/-- Reads a number, a date or a time. -/
def numeric (text : List Char) : Except Flaw (Value × List Char) :=
  match datetime? text with
  | some r => r.map fun rest => (.datetime, rest)
  | none =>
    match text with
    | '+' :: rest => number true false rest
    | '-' :: rest => number true true rest
    | text => number false false text

end Toml

end SelectorExplain
