import SelectorExplain.Proofs.Document.Graft

set_option autoImplicit false

/-! # Documents whose texts stand apart

In an explanation, text stands in text elements, which are never empty and hold nothing else. No
other element has a text of its own (`Tree.TextLeaves`). A document keeps this form as long as
nothing is added below a text: the elements of the rightmost path that are open are no texts
(`Tree.OpenSpine`). -/

namespace SelectorExplain

namespace Tree

/-- Text stands in leaves of its own. -/
inductive TextLeaves : List Tree → Prop
  | nil : TextLeaves []
  | text {content : String} {rest : List Tree} (hne : content ≠ "") (hrest : TextLeaves rest) :
      TextLeaves (.ofText content :: rest)
  | element {tag : Tag} {operator : Option Operator} {children rest : List Tree}
      (htag : tag ≠ .text) (hchildren : TextLeaves children) (hrest : TextLeaves rest) :
      TextLeaves (.node tag operator none children :: rest)

theorem TextLeaves.append {a b : List Tree} (ha : TextLeaves a) (hb : TextLeaves b) :
    TextLeaves (a ++ b) := by
  induction ha with
  | nil => exact hb
  | text hne hrest ih => exact .text hne ih
  | element htag hchildren hrest ihChildren ih => exact .element htag hchildren ih

theorem textLeaves_text {content : String} (hne : content ≠ "") : TextLeaves [.ofText content] :=
  .text hne .nil

theorem textLeaves_element {tag : Tag} (htag : tag ≠ .text) (operator : Option Operator)
    {children : List Tree} (h : TextLeaves children) :
    TextLeaves [.node tag operator none children] :=
  .element htag h .nil

/-- Text stands in leaves of its own, and the first elements of the rightmost path are no such
    leaves. -/
inductive OpenSpine : (height : Nat) → List Tree → Prop
  | zero {ts : List Tree} (h : TextLeaves ts) : OpenSpine 0 ts
  | succ {height : Nat} {init children : List Tree} {tag : Tag} {operator : Option Operator}
      (hinit : TextLeaves init) (htag : tag ≠ .text) (below : OpenSpine height children) :
      OpenSpine (height + 1) (init ++ [.node tag operator none children])

variable {height : Nat} {ts : List Tree}

theorem OpenSpine.hasSpine (h : OpenSpine height ts) : HasSpine height ts := by
  induction h with
  | zero h => exact .zero _
  | succ hinit htag below ih => exact .succ _ _ _ _ ih

theorem OpenSpine.textLeaves (h : OpenSpine height ts) : TextLeaves ts := by
  induction h with
  | zero h => exact h
  | succ hinit htag below ih => exact hinit.append (textLeaves_element htag _ ih)

theorem OpenSpine.of_succ (h : OpenSpine (height + 1) ts) : OpenSpine height ts := by
  induction height generalizing ts with
  | zero => exact .zero h.textLeaves
  | succ height ih =>
      cases h with
      | succ hinit htag below => exact .succ hinit htag (ih below)

theorem OpenSpine.graft (h : OpenSpine height ts) {new : List Tree} (hnew : TextLeaves new) :
    OpenSpine height (graft height new ts) := by
  induction h with
  | zero h => exact .zero (h.append hnew)
  | succ hinit htag below ih =>
      rw [graft_concat]
      exact .succ hinit htag ih

/-- An element that is added may be opened if it is no text. -/
theorem OpenSpine.graft_succ (h : OpenSpine height ts) {tag : Tag} (htag : tag ≠ .text)
    (operator : Option Operator) {children : List Tree} (hchildren : TextLeaves children) :
    OpenSpine (height + 1) (Tree.graft height [.node tag operator none children] ts) := by
  induction h with
  | zero h => exact .succ h htag (.zero hchildren)
  | succ hinit htag' below ih =>
      rw [graft_concat]
      exact .succ hinit htag' ih

end Tree

end SelectorExplain
