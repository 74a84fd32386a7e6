import SelectorExplain.Document.Xml
import SelectorExplain.Selector.Text
import SelectorExplain.Visitor.Walk

set_option autoImplicit false

/-! # Explaining a selector tree

The explainer is a visitor that builds a document: each node becomes an element labelled with its
kind, and each piece of CSS punctuation becomes a `text` element in its place. So the document shows
the structure of the selector, and its texts spell the selector.

New elements are added below the innermost open element. Entering a node opens its element and
leaving it closes the innermost one, whichever that is. -/

namespace SelectorExplain

/-! ## Errors -/

/-- Why a handler refuses a call. -/
inductive ExplainError where
  /-- A group is entered while the document still holds an earlier one. -/
  | notCleared
  /-- A general handler is called, though every kind of node has its own. -/
  | unsupported (kind : NodeKind)
  /-- A node is left while no element is open. -/
  | unbalancedLeave (kind : NodeKind)
  /-- The document cannot be written as XML. -/
  | xml (reason : String)
  deriving DecidableEq, Repr

/-- The wording of an error. -/
def ExplainError.message : ExplainError → String
  | notCleared => "explain document already holds a rendered selector, clear it first"
  | unsupported kind => "explain cannot render a " ++ kind.description
  | unbalancedLeave kind => "unbalanced leave of " ++ kind.description ++ ": no open element"
  | xml reason => "failed to write explain document: " ++ reason

/-! ## State -/

/-- A document under construction. The cursor lists the open elements, the innermost first. -/
structure Explainer where
  document : Document := .empty
  cursor : List Nat := []
  layout : Layout := {}
  deriving DecidableEq, Repr, Inhabited

namespace Explainer

/-- Discards the document and closes every element; the layout stays. -/
def clear (x : Explainer) : Explainer := { layout := x.layout }

/-- Where new elements go: the innermost open element, or the roots. -/
def insertionPoint (x : Explainer) : Option Nat := x.cursor.head?

/-- Adds an element at the insertion point. -/
def add (x : Explainer) (e : Element) : Explainer :=
  { x with document := x.document.push x.insertionPoint e }

/-- Adds a text at the insertion point. -/
def addText (x : Explainer) (content : String) : Explainer := x.add (.ofText content)

/-- Adds an element at the insertion point, with a text inside unless that would be empty. -/
def addLabelled (x : Explainer) (tag : Tag) (content : String) : Explainer :=
  let added := x.add { tag }
  if content = "" then added
  else { added with document := added.document.push (some x.document.size) (.ofText content) }

/-- Adds an element as `addLabelled` does and opens it. -/
def openLabelled (x : Explainer) (tag : Tag) (content : String) : Explainer :=
  { x.addLabelled tag content with cursor := x.document.size :: x.cursor }

/-- Whether the insertion point is a group that already has a sequence. -/
def needsSeparator (x : Explainer) : Bool :=
  match x.insertionPoint.bind x.document.get? with
  | some e => e.tag == .selectorGroup && !e.children.isEmpty
  | none => false

/-- The parts of an attribute selector, added below its open element. -/
def addAttributeParts (x : Explainer) (a : Attribute) : Explainer :=
  let named := (x.addText "[").addLabelled .name a.name
  let compared := match a.operator.punctuation, a.literal with
    | some op, some literal =>
      (((named.addLabelled .operator op).addText "\"").addLabelled .value
        (escapeLiteral literal)).addText "\""
    | _, _ => named
  compared.addText "]"

/-! ## Handlers -/

/-- Closes the innermost open element. -/
def close (kind : NodeKind) : Handler Explainer ExplainError Unit := do
  let x ← get
  match x.cursor with
  | [] => throw (.unbalancedLeave kind)
  | _ :: outer => set { x with cursor := outer }

/-- Opens an element and lets the walk go on inside. -/
def enter (tag : Tag) (content : String) : Handler Explainer ExplainError Flow := do
  modify (·.openLabelled tag content)
  return .descend

/-- Adds an element with a text. -/
def label (tag : Tag) (content : String) : Handler Explainer ExplainError Unit :=
  modify (·.addLabelled tag content)

def enterGroup : Handler Explainer ExplainError Flow := do
  if (← get).document.isEmpty then enter .selectorGroup "" else throw .notCleared

def enterSequence : Handler Explainer ExplainError Flow := do
  modify fun x => if x.needsSeparator then x.addText Group.separator else x
  enter .selector ""

def visitAttribute (a : Attribute) : Handler Explainer ExplainError Unit := do
  modify fun x =>
    let opened : Explainer :=
      { x.add { tag := .attr, operator := some a.operator } with
        cursor := x.document.size :: x.cursor }
    opened.addAttributeParts a
  close (.simple .attr)

def visitSimple : Simple → Handler Explainer ExplainError Unit
  | .universal space => label .universal (qualify space "*")
  | .type name space => label .type (qualify space name)
  | .id name => label .id ("#" ++ name)
  | .className name => label .className ("." ++ name)
  | .attr test => visitAttribute test

/-- The explainer's handlers. Every kind of node has one, so that the general handlers only see
    calls from outside a walk, and refuse them. -/
def visitor : Visitor Explainer ExplainError where
  enterGroup := some fun _ => enterGroup
  leaveGroup := some fun _ => close .group
  enterSequence := some fun _ => enterSequence
  leaveSequence := some fun _ => close .sequence
  enterCombinator := some fun c => enter (.ofCombinator c.kind) c.kind.punctuation
  leaveCombinator := some fun c => close (.combinator c.kind)
  visitKind := fun _ => some visitSimple
  enterNode := some fun n => throw (.unsupported n.kind)
  leaveNode := some fun n => throw (.unsupported n.kind)
  visitNode := some fun n => throw (.unsupported n.kind)

/-! ## Results -/

/-- The selector that the document spells. -/
def text (x : Explainer) : String := x.document.text

/-- The document as XML in the explainer's layout. -/
def toXml (x : Explainer) : String := x.document.toXml x.layout

/-- Writes the document as XML in the explainer's layout. -/
def writeXml (x : Explainer) : Except ExplainError String :=
  (x.document.writeXml x.layout).mapError .xml

theorem writeXml_eq_ok (x : Explainer) : x.writeXml = .ok x.toXml := by
  rw [writeXml, x.document.writeXml_eq_ok]
  rfl

end Explainer

/-- Explains a group in a given layout. -/
def Group.explainWith (g : Group) (layout : Layout) : Except ExplainError Explainer :=
  match (Explainer.visitor.walk g).run { layout } with
  | (.ok (), x) => .ok x
  | (.error e, _) => .error e

/-- Explains a group in the default layout. -/
def Group.explain (g : Group) : Except ExplainError Explainer := g.explainWith {}

end SelectorExplain
