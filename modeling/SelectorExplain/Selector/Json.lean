import SelectorExplain.Selector.Basic
import SelectorExplain.Json.Value

set_option autoImplicit false

/-! # Selector trees as JSON

The canonical spelling of a tree: structures are objects with their members in a fixed order, and an
absent prefix, literal or combinator is left out. `Selector/Decode.lean` reads this spelling and
others. -/

namespace SelectorExplain

def Operator.toJson (op : Operator) : JsonValue := .str op.name

def CombinatorKind.toJson (kind : CombinatorKind) : JsonValue := .str kind.name

namespace Simple

/-- The word under which a simple selector of a kind is written. -/
def keyword : SimpleKind → String
  | .universal => "universal"
  | .type => "type"
  | .id => "id"
  | .className => "class_name"
  | .attr => "attribute"

/-- The namespace prefix as a member. -/
def spaceMember (space : Option String) : List (String × JsonValue) :=
  JsonValue.optional "namespace_prefix" (space.map .str)

end Simple

def Attribute.toJson (a : Attribute) : JsonValue :=
  .obj <| ("name", .str a.name) :: ("operator", a.operator.toJson) ::
    JsonValue.optional "literal" (a.literal.map .str)

namespace Simple

/-- What a simple selector says, without the word for its kind. -/
def payloadJson : Simple → JsonValue
  | universal space => .obj (spaceMember space)
  | type name space => .obj (("element_name", .str name) :: spaceMember space)
  | id name => .obj [("id", .str name)]
  | className name => .obj [("class_name", .str name)]
  | attr test => test.toJson

def toJson (s : Simple) : JsonValue := .obj [(keyword s.kind, s.payloadJson)]

end Simple

/-- The simple selectors at the head of a sequence, as a member. -/
def Sequence.simplesMember (simples : List Simple) : String × JsonValue :=
  ("simples", .arr (simples.map Simple.toJson))

def Sequence.toJson : Sequence → JsonValue
  | last simples => .obj [simplesMember simples]
  | chained simples kind target =>
    .obj [simplesMember simples,
      ("combinator", .obj [("kind", kind.toJson), ("sequence", target.toJson)])]

def Combinator.toJson (c : Combinator) : JsonValue :=
  .obj [("kind", c.kind.toJson), ("sequence", c.target.toJson)]

def Group.toJson (g : Group) : JsonValue :=
  .obj [("sequences", .arr (g.sequences.map Sequence.toJson))]

end SelectorExplain
