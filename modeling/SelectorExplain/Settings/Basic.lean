import SelectorExplain.Document.Xml

set_option autoImplicit false

/-! # Settings

What is printed, and in which layout. Settings come from a configuration file, and options of the
command line override them one by one. -/

namespace SelectorExplain

/-- What is printed about a selector. -/
inductive OutputFormat where
  /-- The explanation as XML. -/
  | xml
  /-- The selector on one line. -/
  | text
  /-- The selector and its explanation as JSON. -/
  | json
  deriving DecidableEq, Repr, Inhabited

namespace OutputFormat

def all : List OutputFormat := [xml, text, json]

def name : OutputFormat → String
  | xml => "xml"
  | text => "text"
  | json => "json"

/-- The format of a given name. -/
def ofName? (s : String) : Option OutputFormat := all.find? (·.name == s)

end OutputFormat

/-- How an explanation is printed. -/
structure Settings extends Layout where
  format : OutputFormat := .xml
  deriving DecidableEq, Repr, Inhabited

/-- What a configuration file says. -/
structure Config where
  explain : Settings := {}
  deriving DecidableEq, Repr, Inhabited

/-- The options of the command line that override settings. -/
structure Overrides where
  format : Option OutputFormat := none
  indent : Option Nat := none
  noDeclaration : Bool := false
  deriving DecidableEq, Repr, Inhabited

/-- The settings with the given options in place of what was configured. -/
def Settings.override (s : Settings) (o : Overrides) : Settings where
  space := s.space
  indent := o.indent.or s.indent
  declaration := s.declaration && !o.noDeclaration
  format := o.format.getD s.format

end SelectorExplain
