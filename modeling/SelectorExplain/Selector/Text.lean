import SelectorExplain.Selector.Basic

set_option autoImplicit false

/-! # The CSS text of a selector tree

Reads a tree off as CSS: sequences separated by commas, simple selectors written one after the
other, combinators by their punctuation. Nothing here builds a document; the explanation of a tree
(`Explainer.lean`) spells the same text through the texts of its elements. -/

namespace SelectorExplain

/-- Puts a text in place of each occurrence of a character. -/
def replaceChar (old : Char) (new : String) (s : String) : String :=
  String.ofList (s.toList.flatMap fun c => if c = old then new.toList else [c])

@[simp] theorem toList_replaceChar (old : Char) (new s : String) :
    (replaceChar old new s).toList =
      s.toList.flatMap fun c => if c = old then new.toList else [c] :=
  String.toList_ofList

/-- Puts a backslash before each backslash and then before each double quote, so that the literal
    can stand between double quotes. -/
def escapeLiteral (literal : String) : String :=
  replaceChar '"' "\\\"" (replaceChar '\\' "\\\\" literal)

/-- Writes `name` behind its namespace prefix. An absent or empty prefix says nothing, and `*` says
    any namespace: these are dropped. -/
def qualify (space : Option String) (name : String) : String :=
  match space with
  | some p => if p = "" ∨ p = "*" then name else p ++ "|" ++ name
  | none => name

/-- The text of an attribute selector. Operator and literal are written only together. -/
def Attribute.text (a : Attribute) : String :=
  match a.operator.punctuation, a.literal with
  | some op, some literal => "[" ++ a.name ++ op ++ "\"" ++ escapeLiteral literal ++ "\"]"
  | _, _ => "[" ++ a.name ++ "]"

def Simple.text : Simple → String
  | universal space => qualify space "*"
  | type name space => qualify space name
  | id name => "#" ++ name
  | className name => "." ++ name
  | attr test => test.text

def Sequence.text : Sequence → String
  | last simples => String.join (simples.map Simple.text)
  | chained simples kind target =>
    String.join (simples.map Simple.text) ++ kind.punctuation ++ target.text

/-- What stands between two sequences of a group. -/
def Group.separator : String := ", "

def Group.text (g : Group) : String :=
  Group.separator.intercalate (g.sequences.map Sequence.text)

end SelectorExplain
