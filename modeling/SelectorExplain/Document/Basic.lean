import SelectorExplain.Selector.Basic

set_option autoImplicit false

/-! # Explanation documents

A document is a forest of labelled elements. Elements are kept in one array in the order in which
they were added, and an element is addressed by its index there; each element lists its children,
and the document lists its roots. Literal text lives in `text` elements only, so the texts in
document order spell the selector that the document explains.

An element is always added at the end: at the end of the array, and at the end of its parent's
children (or of the roots). -/

namespace SelectorExplain

/-! ## Labels -/

/-- The labels of elements. -/
inductive Tag where
  | selectorGroup
  | selector
  | universal
  | type
  | id
  | className
  | descendant
  | child
  | follower
  | next
  | attr
  | name
  | operator
  | value
  | text
  deriving DecidableEq, Repr, Inhabited

namespace Tag

/-- Every label, in the order in which tables list them. -/
def all : List Tag :=
  [selectorGroup, selector, universal, type, id, className, descendant, child, follower, next, attr,
    name, operator, value, text]

/-- The label in XML. -/
def label : Tag → String
  | selectorGroup => "selector-group"
  | selector => "selector"
  | universal => "universal"
  | type => "type"
  | id => "id"
  | className => "class"
  | descendant => "descendant"
  | child => "child"
  | follower => "follower"
  | next => "next"
  | attr => "attribute"
  | name => "name"
  | operator => "operator"
  | value => "value"
  | text => "text"

/-- The tag with a given label. -/
def ofLabel? (word : String) : Option Tag := all.find? (·.label == word)

theorem ofLabel?_label (tag : Tag) : ofLabel? tag.label = some tag := by
  cases tag <;> rfl

/-- No two tags have the same label. -/
theorem eq_of_label_eq {a b : Tag} (h : a.label = b.label) : a = b := by
  have hfound := ofLabel?_label a
  rw [h, ofLabel?_label b] at hfound
  exact (Option.some.inj hfound).symm

/-- The label of the element for a combinator. -/
def ofCombinator : CombinatorKind → Tag
  | .descendant => descendant
  | .child => child
  | .follower => follower
  | .next => next

end Tag

/-! ## Elements and documents -/

/-- One element. By convention only `attribute` elements have an operator and only `text` elements
    have a text. -/
structure Element where
  tag : Tag
  operator : Option Operator := none
  text : Option String := none
  children : List Nat := []
  deriving DecidableEq, Repr, Inhabited

/-- A `text` element. -/
def Element.ofText (content : String) : Element := { tag := .text, text := some content }

/-- Elements by index, and which of them are roots. -/
structure Document where
  elements : Array Element := #[]
  roots : List Nat := []
  deriving DecidableEq, Repr, Inhabited

namespace Document

/-- The document without elements. -/
def empty : Document := {}

/-- The number of elements, texts included. -/
def size (d : Document) : Nat := d.elements.size

/-- Whether there is nothing to print. -/
def isEmpty (d : Document) : Bool := d.roots.isEmpty

/-- The element with an index, if there is one. -/
def get? (d : Document) (id : Nat) : Option Element := d.elements[id]?

/-- The children of an element, or the roots. An index that is no element has no children. -/
def childrenOf (d : Document) : Option Nat → List Nat
  | none => d.roots
  | some id => ((d.get? id).map Element.children).getD []

/-- Adds an element, which gets the index `d.size`. The element is stored first and its parent is
    looked up afterwards: under a parent that is no element it stays unattached, and an element may
    be named as its own parent. -/
def push (d : Document) (parent : Option Nat) (e : Element) : Document :=
  match parent with
  | none => { elements := d.elements.push e, roots := d.roots ++ [d.size] }
  | some id =>
    { d with
      elements := (d.elements.push e).modify id fun p =>
        { p with children := p.children ++ [d.size] } }

@[simp] theorem size_push (d : Document) (parent : Option Nat) (e : Element) :
    (d.push parent e).size = d.size + 1 := by
  cases parent <;> simp [push, size]

/-- What `append` answers when the parent is no element. -/
inductive AppendError where
  | noSuchParent
  deriving DecidableEq, Repr

/-- Adds an element and answers its index. Under a parent that is no element this is an error, and
    the element that `push` left behind stays in the document. -/
def append (d : Document) (parent : Option Nat) (e : Element) :
    Except AppendError Nat × Document :=
  match parent with
  | none => (.ok d.size, d.push none e)
  | some id => (if id ≤ d.size then .ok d.size else .error .noSuchParent, d.push (some id) e)

end Document

end SelectorExplain
