import SelectorExplain.Toml.Value

set_option autoImplicit false

/-! # Blanks, comments and strings of TOML

A reader takes characters from the front of a text. A construct that may be left out is absent if it
has a tentative flaw, and then the text is read on from where the construct would have started; with
any other flaw the text is no document. -/

namespace SelectorExplain

namespace Toml

/-- A reader of a part of a text: it answers a value and the rest of the text, or a flaw. -/
abbrev Reader (α : Type) := StateT (List Char) (Except Flaw) α

namespace Reader

variable {α : Type}

def fail (f : Flaw) : Reader α := throw f

/-- What is left to read. -/
def rest : Reader (List Char) := get

/-- The next character, which stays to be read. -/
def peek : Reader (Option Char) := return (← get).head?

/-- Passes over the next character. -/
def eat : Reader Unit := modify (List.drop 1)

/-- Passes over a character that must stand here. -/
def expect (c : Char) (f : Flaw) : Reader Unit := do
  if (← peek) == some c then eat else fail f

/-- A reader for which the construct is named if something goes wrong. -/
def about (name : String) (r : Reader α) : Reader α := fun text =>
  (r text).mapError fun f => { f with about := f.about.or (some name) }

/-- Reads a construct that may be left out. -/
def optional (r : Reader α) : Reader (Option α) := fun text =>
  match r text with
  | .ok (a, rest) => .ok (some a, rest)
  | .error f => if f.tentative then .ok (none, text) else .error f

/-- A reader of something that is known to be meant. -/
def committed (r : Reader α) : Reader α := fun text => (r text).mapError Flaw.asFinal

/-- The outcome of a rule, as a reader. -/
def ofBreach : Except Breach α → Reader α
  | .ok a => pure a
  | .error b => fail b.flaw

end Reader

/-! ## Between tokens -/

/-- A blank on a line. -/
def isBlank (c : Char) : Bool := c = ' ' || c = '\t'

/-- A character that may stand in a comment, and in a string if it means nothing there. -/
def isPrintable (c : Char) : Bool := c = '\t' || (' ' ≤ c && c != '\x7f')

/-- The text without the newline in front of it, if there is one. -/
def newline? : List Char → Option (List Char)
  | '\n' :: rest => some rest
  | '\r' :: '\n' :: rest => some rest
  | _ => none

def skipBlanks : Reader Unit := modify (List.dropWhile isBlank)

/-- Passes over a comment, if there is one. -/
def skipComment : Reader Unit := modify fun text =>
  match text with
  | '#' :: rest => rest.dropWhile isPrintable
  | text => text

/-- Passes over the end of a line, which may be that of the text. -/
def newline (f : Flaw) : Reader Unit := do
  match ← Reader.rest with
  | [] => return ()
  | text =>
    match newline? text with
    | some rest => set rest
    | none => Reader.fail f

/-- Passes over what may stand on a line behind its content, and over its end. -/
def endLine : Reader Unit := do
  skipBlanks
  skipComment
  newline (.missing ["newline", "`#`"])

/-- The text behind blanks, newlines and comments; `none` if a comment or a carriage return is not
    followed by the rest of a newline. -/
def afterSpace? : (budget : List Char) → List Char → Option (List Char)
  | [], text => some text
  | _ :: budget, text =>
    match text with
    | '#' :: rest => newline? (rest.dropWhile isPrintable) >>= afterSpace? budget
    | '\n' :: rest => afterSpace? budget rest
    | '\r' :: _ => newline? text >>= afterSpace? budget
    | c :: rest => if isBlank c then afterSpace? budget rest else some text
    | [] => some []

/-- Passes over everything that may stand between the items of an array. -/
def skipSpace : Reader Unit := do
  let text ← Reader.rest
  match afterSpace? text text with
  | some rest => set rest
  | none => Reader.fail { tentative := true }

/-! ## Strings -/

/-- What a letter after a backslash stands for. -/
def escaped? : Char → Option Char
  | 'b' => some '\x08'
  | 'f' => some '\x0c'
  | 'n' => some '\n'
  | 'r' => some '\r'
  | 't' => some '\t'
  | '\\' => some '\\'
  | '"' => some '"'
  | _ => none

/-- The value of a hexadecimal digit. -/
def hexValue? (c : Char) : Option Nat :=
  if '0' ≤ c ∧ c ≤ '9' then some (c.toNat - 48)
  else if 'a' ≤ c ∧ c ≤ 'f' then some (c.toNat - 87)
  else if 'A' ≤ c ∧ c ≤ 'F' then some (c.toNat - 55)
  else none

/-- The character with a number of exactly `digits` hexadecimal digits. -/
def numbered (digits : Nat) (text : List Char) : Except Flaw Char :=
  let about := "unicode " ++ toString digits ++ "-digit hex code"
  match text.mapM hexValue? with
  | none => .error { about := some about }
  | some values =>
    let n := values.foldl (fun n v => n * 16 + v) 0
    if values.length ≠ digits then .error { about := some about }
    else if n.isValidChar then .ok (.ofNat n)
    else .error { about := some about, breach := some .outOfRange }

/-- The flaw of a backslash in front of a character that cannot follow it. -/
def badEscape : Flaw :=
  .invalid "escape sequence" ["`b`", "`f`", "`n`", "`r`", "`t`", "`u`", "`U`", "`\\`", "`\"`"]

/-- A character in front of what has been read. -/
def prepend (c : Except Flaw Char) (more : Except Flaw (List Char × List Char)) :
    Except Flaw (List Char × List Char) := do
  let c ← c
  let (text, rest) ← more
  return (c :: text, rest)

/-- The ways in which a string may be quoted. -/
structure Quoting where
  quote : Char
  /-- Whether a backslash has a meaning. -/
  escapes : Bool
  /-- Whether there are three quotes on either side and newlines between them. -/
  long : Bool
  /-- What a string that does not end is called. -/
  about : String

def Quoting.basic : Quoting := ⟨'"', true, false, "basic string"⟩

def Quoting.literal : Quoting := ⟨'\'', false, false, "literal string"⟩

def Quoting.longBasic : Quoting := ⟨'"', true, true, "multiline basic string"⟩

def Quoting.longLiteral : Quoting := ⟨'\'', false, true, "multiline literal string"⟩

/-- The rest of a long string that is closed here, and how many quotes belong to the string: of up
    to five quotes in a row the last three close it. -/
def closing? (quote : Char) (text : List Char) : Option (Nat × List Char) :=
  let run := (text.takeWhile (· == quote)).length
  if run < 3 then none
  else
    let inside := if 5 ≤ run then 2 else run - 3
    some (inside, text.drop (inside + 3))

/-- Drops blanks and newlines. -/
def dropLines : List Char → List Char
  | '\r' :: '\n' :: rest => dropLines rest
  | c :: rest => if isBlank c || c = '\n' then dropLines rest else c :: rest
  | [] => []

/-- The text behind a backslash at the end of a line, up to the next character that is no space. -/
def continued? (text : List Char) : Option (List Char) :=
  (newline? (text.dropWhile isBlank)).map dropLines

/-- Reads the rest of a string, and its closing quotes. Each step takes at least one character, so
    the text that was left at the start bounds their number. -/
def stringBody (q : Quoting) : (budget : List Char) → List Char →
    Except Flaw (List Char × List Char)
  | [], _ => .error { about := some q.about }
  | _ :: budget, text =>
    match text with
    | [] => .error { about := some q.about }
    | c :: rest =>
      if c = q.quote then
        if q.long then
          match closing? c text with
          | some (inside, rest) => .ok (List.replicate inside c, rest)
          | none => prepend (.ok c) (stringBody q budget rest)
        else .ok ([], rest)
      else if q.escapes && c = '\\' then
        match rest with
        | [] => .error { about := some q.about }
        | 'u' :: more => prepend (numbered 4 (more.take 4)) (stringBody q budget (more.drop 4))
        | 'U' :: more => prepend (numbered 8 (more.take 8)) (stringBody q budget (more.drop 8))
        | e :: more =>
          match escaped? e, q.long, continued? rest with
          | some c, _, _ => prepend (.ok c) (stringBody q budget more)
          | none, true, some rest => stringBody q budget rest
          | none, _, _ => .error badEscape
      else if isPrintable c then prepend (.ok c) (stringBody q budget rest)
      else match q.long, newline? text with
        | true, some rest => prepend (.ok '\n') (stringBody q budget rest)
        | _, _ => .error { about := some q.about }

/-- Reads a string from behind its opening quotes. -/
def stringRest (q : Quoting) (text : List Char) : Except Flaw (String × List Char) := do
  let (chars, rest) ← stringBody q text text
  return (String.ofList chars, rest)

/-- Reads a string in single quotes of either kind, if there is one. -/
def shortString? : List Char → Option (Except Flaw (String × List Char))
  | '"' :: rest => some (stringRest .basic rest)
  | '\'' :: rest => some (stringRest .literal rest)
  | _ => none

/-- Reads a string, if there is one. A newline right behind three opening quotes is no part of
    it. -/
def string? : List Char → Option (Except Flaw (String × List Char))
  | '"' :: '"' :: '"' :: rest => some (stringRest .longBasic ((newline? rest).getD rest))
  | '\'' :: '\'' :: '\'' :: rest => some (stringRest .longLiteral ((newline? rest).getD rest))
  | text => shortString? text

end Toml

end SelectorExplain
