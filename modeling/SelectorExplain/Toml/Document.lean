import SelectorExplain.Toml.Number
import SelectorExplain.Toml.Tables

set_option autoImplicit false

/-! # Documents

A document is read line by line: blank lines and comments, headers, and keys with their values. The
values of one line may span several lines of text only inside of brackets and of long strings. -/

namespace SelectorExplain

namespace Toml

/-! ## Keys -/

/-- Reads one part of a key, if there is one. -/
def keyPart? (text : List Char) : Option (Except Flaw (String × List Char)) :=
  match shortString? text with
  | some r => some r
  | none =>
    match text.takeWhile isKeyChar with
    | [] => none
    | part => some (.ok (String.ofList part, text.dropWhile isKeyChar))

/-- Reads the further parts of a dotted key. Each takes at least one character, so the text that was
    left at the start bounds their number. -/
def moreParts : (budget : List Char) → Reader (List String)
  | [] => return []
  | _ :: budget => do
    match ← Reader.rest with
    | '.' :: text =>
      match keyPart? (text.dropWhile isBlank) with
      | none => return []
      | some r =>
        let (part, text) ← r
        set (text.dropWhile isBlank)
        return part :: (← moreParts budget)
    | _ => return []

/-- The number of parts that a key may have, and of levels that a value may have. -/
def maxDepth : Nat := 79

/-- Reads a key: the path to it, and its last part. A text without a key and a key with too many
    parts are tentative flaws. -/
def key : Reader (List String × String) := do
  skipBlanks
  match keyPart? (← Reader.rest) with
  | none => Reader.fail (Flaw.invalid "key" []).asTentative
  | some r =>
    let (part, text) ← r
    set (text.dropWhile isBlank)
    let parts := part :: (← moreParts text)
    if maxDepth < parts.length then Reader.fail (Breach.flaw .nestedTooDeeply).asTentative
    else return (parts.dropLast, parts.getLastD part)

/-! ## Values -/

/-- Reads an item of an array with the space on either side of it. -/
def spaced (item : Reader Value) : Reader Value := do
  skipSpace
  let v ← item
  skipSpace
  return v

/-- Reads the items of an array; the last one may be followed by a comma. Each takes at least one
    character, so the text that was left at the start bounds their number. -/
def items (item : Reader Value) : (budget : List Char) → Reader (List Value)
  | [] => return []
  | _ :: budget => do
    match ← Reader.optional (spaced item) with
    | none => return []
    | some v =>
      if (← Reader.peek) == some ',' then
        Reader.eat
        return v :: (← items item budget)
      else return [v]

/-- Reads an array from behind its opening bracket. -/
def array (item : Reader Value) : Reader Value := Reader.committed do
  let vs ← items item (← Reader.rest)
  skipSpace
  Reader.expect ']' (.invalid "array" ["`]`"])
  return .array vs

/-- Reads a key and its value, which is known to be meant by the key. -/
def keyValue (item : Reader Value) : Reader ((List String × String) × Value) := do
  let k ← key
  Reader.committed do
    Reader.expect '=' (.missing ["`.`", "`=`"])
    skipBlanks
    return (k, ← item)

/-- Reads the further pairs of a table in braces, each with the comma in front of it. -/
def morePairs (item : Reader Value) :
    (budget : List Char) → Reader (List ((List String × String) × Value))
  | [] => return []
  | _ :: budget => do
    skipBlanks
    let next : Reader ((List String × String) × Value) := do
      Reader.expect ',' (Flaw.missing []).asTentative
      keyValue item
    match ← Reader.optional next with
    | none => return []
    | some pair => return pair :: (← morePairs item budget)

/-- Reads a table from behind its opening brace. -/
def bracedTable (item : Reader Value) : Reader Value := Reader.committed do
  let pairs ← match ← Reader.optional (keyValue item) with
    | none => pure []
    | some pair => do pure (pair :: (← morePairs item (← Reader.rest)))
  skipBlanks
  let entries ← Reader.ofBreach <|
    pairs.foldlM (fun t pair => Entries.put true none pair.1.1 pair.1.2 pair.2 t) []
  Reader.expect '\x7d' (.invalid "inline table" ["`\x7d`"])
  return .table true .stated entries

/-- The flaw of a text that is no value. -/
def noValue : Flaw := .invalid "string" ["`\"`", "`'`"]

/-- Reads a word with its value. Only a text that starts like a truth value must be one. -/
def named (text : List Char) : Reader Value :=
  match text with
  | 't' :: 'r' :: 'u' :: 'e' :: rest => do set rest; return .boolean true
  | 'f' :: 'a' :: 'l' :: 's' :: 'e' :: rest => do set rest; return .boolean false
  | 'i' :: 'n' :: 'f' :: rest => do set rest; return .float (.infinite false)
  | 'n' :: 'a' :: 'n' :: rest => do set rest; return .float .nan
  | 't' :: _ => Reader.fail noValue
  | 'f' :: _ => Reader.fail noValue
  | _ => Reader.fail noValue.asTentative

/-- Reads a value, with `nested` for those inside of it if there may be any. -/
def valueWith (nested : Option (Reader Value)) : Reader Value := do
  let inside (r : Reader Value → Reader Value) : Reader Value := do
    Reader.eat
    match nested with
    | some item => r item
    | none => Reader.fail (Breach.flaw .nestedTooDeeply)
  let text ← Reader.rest
  match string? text with
  | some r =>
    let (s, rest) ← r
    set rest
    return .string s
  | none =>
    match text with
    | '[' :: _ => inside array
    | '\x7b' :: _ => inside bracedTable
    | '_' :: _ => Reader.fail (Flaw.invalid "integer" ["leading digit"]).asTentative
    | '.' :: _ => Reader.fail (Flaw.invalid "floating-point number" ["leading digit"]).asTentative
    | c :: _ =>
      if c.isDigit || c = '+' || c = '-' then
        let (v, rest) ← numeric text
        set rest
        return v
      else named text
    | [] => Reader.fail { tentative := true }

/-- Reads a value of at most `depth` levels. -/
def value : (depth : Nat) → Reader Value
  | 0 => valueWith none
  | depth + 1 => valueWith (some (value depth))

/-! ## Lines -/

/-- Reads a header, from its brackets to the end of its line. -/
def header (d : Draft) : Reader Draft := Reader.about "table header" do
  Reader.eat
  match ← Reader.rest with
  | [] => Reader.fail {}
  | '[' :: _ =>
    Reader.eat
    let (parents, k) ← key
    let close : Reader Unit := Reader.expect ']' (.missing ["`.`", "`]]`"])
    close
    close
    endLine
    Reader.ofBreach (d.openItem parents k)
  | _ =>
    let (parents, k) ← key
    Reader.expect ']' (.missing ["`.`", "`]`"])
    endLine
    Reader.ofBreach (d.openTable parents k)

/-- Reads a key and its value, to the end of the line. -/
def assignment (d : Draft) : Reader Draft := do
  let ((path, k), v) ← keyValue (value maxDepth)
  endLine
  Reader.ofBreach (d.put path k v)

/-- Reads the lines of a document. Each takes at least one character, so the text that was left at
    the start bounds their number. -/
def lines : (budget : List Char) → Draft → Reader Draft
  | [], d => return d
  | _ :: budget, d => do
    skipBlanks
    match ← Reader.peek with
    | none => return d
    | some '#' => do
      skipComment
      newline {}
      lines budget d
    | some '[' => do lines budget (← header d)
    | some c =>
      if c = '\n' || c = '\r' then
        newline {}
        lines budget d
      else lines budget (← assignment d)

/-- The text without the mark that tells its encoding. -/
def withoutMark : List Char → List Char
  | '\ufeff' :: text => text
  | text => text

/-- Reads a document. -/
def parse (text : String) : Except Flaw Entries :=
  let text := withoutMark text.toList
  match lines text {} text with
  | .ok (d, _) => .ok d.root
  | .error f => .error f

end Toml

end SelectorExplain
