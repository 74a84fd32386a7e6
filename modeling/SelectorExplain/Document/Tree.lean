import SelectorExplain.Document.Basic

set_option autoImplicit false

/-! # The nested view of a document

`Document.forest` unfolds the indices of a document into nested trees. Whatever is read off a
document (its text, its XML, its JSON) is a function of this view.

A child is always added after its parent, so along a branch the indices grow and no branch is longer
than the document has elements. The unfolding takes that number as its bound. -/

namespace SelectorExplain

/-- An element with everything below it. -/
inductive Tree where
  | node (tag : Tag) (operator : Option Operator) (text : Option String) (children : List Tree)
  deriving Repr, Inhabited

namespace Tree

def tag : Tree → Tag
  | node tag _ _ _ => tag

def operator : Tree → Option Operator
  | node _ operator _ _ => operator

def children : Tree → List Tree
  | node _ _ _ children => children

/-- A text element. -/
def ofText (content : String) : Tree := node .text none (some content) []

mutual

/-- All text below an element, in document order. -/
def text : Tree → String
  | node _ _ content children => content.getD "" ++ textOfForest children

/-- All text of several trees, in document order. -/
def textOfForest : List Tree → String
  | [] => ""
  | t :: rest => t.text ++ textOfForest rest

end

end Tree

namespace Document

/-- The element with an index and what is below it, down to `bound` levels. -/
def treeWithin (d : Document) : (bound : Nat) → Nat → Option Tree
  | 0, id => (d.get? id).map fun e => .node e.tag e.operator e.text []
  | bound + 1, id =>
    (d.get? id).map fun e =>
      .node e.tag e.operator e.text (e.children.filterMap (d.treeWithin bound))

/-- The trees of the roots, in order. -/
def forest (d : Document) : List Tree := d.roots.filterMap (d.treeWithin d.size)

/-- All text of a document, in document order. -/
def text (d : Document) : String := Tree.textOfForest d.forest

end Document

end SelectorExplain
