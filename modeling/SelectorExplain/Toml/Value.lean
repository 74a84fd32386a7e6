import SelectorExplain.Decimal.Shortest

set_option autoImplicit false

/-! # Values of a TOML document

A document is a table. Tables come about in several ways, and later lines may only add to some of
them: a table remembers whether it was stated, by a header or in braces, or whether it only stands
on the way to another one.

What is wrong with a text that is no document is a `Flaw`: the construct that was being read, what
could have stood there, and the rule that was broken, each if there is something to say. A flaw is
tentative as long as nothing shows that the construct was meant at all. -/

namespace SelectorExplain

namespace Toml

/-! ## Values -/

/-- How a table came about. -/
inductive Origin where
  /-- By a header of its own, or in braces. -/
  | stated
  /-- On the way of a longer header. -/
  | implied
  /-- On the way of a dotted key. -/
  | dotted
  deriving DecidableEq, Repr

/-- A value. Of dates and times only their presence is kept. -/
inductive Value where
  | string (s : String)
  | integer (n : Int)
  | float (x : Real64)
  | boolean (b : Bool)
  | datetime
  | array (items : List Value)
  /-- A table; `braced` if it is written as a value. -/
  | table (braced : Bool) (origin : Origin) (entries : List (String × Value))
  /-- The tables of a header in double brackets. -/
  | tables (items : List (List (String × Value)))
  deriving Repr, Inhabited

/-- The keys of a table with their values, in the order in which they were written. -/
abbrev Entries := List (String × Value)

/-- The type of a value, in words. -/
def Value.typeName : Value → String
  | string _ => "string"
  | integer _ => "integer"
  | float _ => "float"
  | boolean _ => "boolean"
  | datetime => "datetime"
  | array _ => "array"
  | table true _ _ => "inline table"
  | table false _ _ => "table"
  | tables _ => "array of tables"

/-! ## Flaws -/

/-- A rule that a text breaks. -/
inductive Breach where
  /-- A key for the second time, in the table at the given path if that is known. -/
  | duplicateKey (key : String) (table : Option (List String))
  /-- A path that leads through a value that is no table. -/
  | notATable (path : List String) (typeName : String)
  | outOfRange
  | tooLarge
  | tooSmall
  | nestedTooDeeply
  deriving DecidableEq, Repr

/-- The wording of a broken rule. -/
def Breach.message : Breach → String
  | duplicateKey key none => "duplicate key `" ++ key ++ "`"
  | duplicateKey key (some []) => "duplicate key `" ++ key ++ "` in document root"
  | duplicateKey key (some path) =>
    "duplicate key `" ++ key ++ "` in table `" ++ ".".intercalate path ++ "`"
  | notATable path typeName =>
    "dotted key `" ++ ".".intercalate path ++ "` attempted to extend non-table type (" ++
      typeName ++ ")"
  | outOfRange => "value is out of range"
  | tooLarge => "number too large to fit in target type"
  | tooSmall => "number too small to fit in target type"
  | nestedTooDeeply => "recursion limit exceeded"

/-- What is wrong with a text. -/
structure Flaw where
  about : Option String := none
  expected : List String := []
  breach : Option Breach := none
  /-- Whether the construct may be taken to be absent where it may be left out. -/
  tentative : Bool := false
  deriving DecidableEq, Repr

/-- The wording of a flaw: a line for each of its parts. -/
def Flaw.message (f : Flaw) : String :=
  let expected := if f.expected.isEmpty then none else
    some ("expected " ++ ", ".intercalate f.expected)
  "\n".intercalate <|
    [f.about.map ("invalid " ++ ·), expected, f.breach.map Breach.message].filterMap id

/-- The flaw of a broken rule. -/
def Breach.flaw (b : Breach) : Flaw := { breach := some b }

/-- The flaw of a construct that is not what it seemed to be. -/
def Flaw.invalid (about : String) (expected : List String) : Flaw :=
  { about := some about, expected }

/-- The flaw of a character that should be another. -/
def Flaw.missing (expected : List String) : Flaw := { expected }

/-- The flaw while nothing shows that the construct was meant. -/
def Flaw.asTentative (f : Flaw) : Flaw := { f with tentative := true }

/-- The flaw once the construct is known to be meant. -/
def Flaw.asFinal (f : Flaw) : Flaw := { f with tentative := false }

end Toml

end SelectorExplain
