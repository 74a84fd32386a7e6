import SelectorExplain.Document.Xml
import SelectorExplain.Json.Value

set_option autoImplicit false

/-! # Documents as JSON

A document is the list of its roots, and an element is an object with its tag, its operator and its
text if it has them, and the list of its children. The words for tags come from the names of the
tags here; they are the labels that XML has (`Tag.word_eq_label`). -/

namespace SelectorExplain

/-! ## Words for tags -/

/-- A name made of words with capitals, in small letters and with hyphens between the words. -/
def hyphenated (name : String) : String :=
  match name.toList with
  | [] => ""
  | first :: rest =>
    String.ofList (first.toLower ::
      rest.flatMap fun c => if c.isUpper then ['-', c.toLower] else [c.toLower])

namespace Tag

/-- The name of a tag. -/
def capitalized : Tag → String
  | selectorGroup => "SelectorGroup"
  | selector => "Selector"
  | universal => "Universal"
  | type => "Type"
  | id => "Id"
  | className => "Class"
  | descendant => "Descendant"
  | child => "Child"
  | follower => "Follower"
  | next => "Next"
  | attr => "Attribute"
  | name => "Name"
  | operator => "Operator"
  | value => "Value"
  | text => "Text"

/-- The word for a tag in JSON. -/
def word (tag : Tag) : String := hyphenated tag.capitalized

/-- JSON and XML have the same words for tags. -/
theorem word_eq_label (tag : Tag) : tag.word = tag.label := by
  cases tag <;> rfl

end Tag

/-! ## Elements -/

mutual

/-- An element and everything below it. -/
def Tree.toJson : Tree → JsonValue
  | .node tag operator text children =>
    .obj <| ("tag", .str tag.word) ::
      (JsonValue.optional "operator" (operator.map fun op => .str op.name) ++
      (JsonValue.optional "text" (text.map .str) ++
      [("children", .arr (Tree.toJsonItems children))]))

/-- Several elements side by side. -/
def Tree.toJsonItems : List Tree → List JsonValue
  | [] => []
  | t :: rest => t.toJson :: Tree.toJsonItems rest

end

def Document.toJson (d : Document) : JsonValue := .arr (Tree.toJsonItems d.forest)

/-- An optional width; an absent one is written as `null`. -/
def Layout.indentJson (indent : Option Nat) : JsonValue := .ofOption (indent.map .nat)

def Layout.toJson (layout : Layout) : JsonValue :=
  .obj [("namespace", .str layout.space), ("indent", indentJson layout.indent),
    ("xml_declaration", .bool layout.declaration)]

end SelectorExplain
