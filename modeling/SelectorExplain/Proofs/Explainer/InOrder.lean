import SelectorExplain.Explainer
import SelectorExplain.Proofs.Document.Graft
import SelectorExplain.Proofs.Explainer.Explanation

set_option autoImplicit false

/-! # Explainers in order

An explainer adds elements below the innermost open element only, and it opens only what it has just
added. So its document stays in document order, and its open elements stay the first ones of the
document's rightmost path. `Explainer.ofForest` is the explainer in such a state, and the lemmas
here say of each operation how it changes the forest and the height of the cursor: adding grafts a
tree at that height, opening goes one higher and closing one lower. -/

namespace SelectorExplain

open SelectorExplain.Tree

namespace Explainer

/-- The explainer that has built a forest and has the first `height` elements of its rightmost path
    open. -/
def ofForest (layout : Layout) (height : Nat) (ts : List Tree) : Explainer where
  document := .ofForest ts
  cursor := (spineFrom 0 height ts).reverse
  layout := layout

/-- The document is in document order, and the open elements start its rightmost path. -/
def InOrder (x : Explainer) : Prop :=
  ∃ layout height ts, HasSpine height ts ∧ x = ofForest layout height ts

theorem clear_eq_ofForest (x : Explainer) : x.clear = ofForest x.layout 0 [] := rfl

variable {layout : Layout} {height : Nat} {ts : List Tree}

/-! ## Adding -/

theorem insertionPoint_ofForest :
    (ofForest layout height ts).insertionPoint = (spineFrom 0 height ts).getLast? := by
  rw [insertionPoint, ofForest, List.head?_reverse]

theorem add_ofForest (h : HasSpine height ts) (tag : Tag) (operator : Option Operator)
    (text : Option String) :
    (ofForest layout height ts).add { tag, operator, text } =
      ofForest layout height (graft height [.node tag operator text []] ts) := by
  rw [add, insertionPoint_ofForest]
  simp only [ofForest, Document.push_ofForest h, spineFrom_graft h]

theorem addText_ofForest (h : HasSpine height ts) (content : String) :
    (ofForest layout height ts).addText content =
      ofForest layout height (graft height [.ofText content] ts) :=
  add_ofForest h .text none (some content)

/-- Opening the element that has just been added. -/
theorem open_ofForest (layout : Layout) (h : HasSpine height ts) (t : Tree) :
    { ofForest layout height (graft height [t] ts) with
      cursor := (ofForest layout height ts).document.size :: (ofForest layout height ts).cursor } =
      ofForest layout (height + 1) (graft height [t] ts) := by
  simp only [ofForest, spineFrom_graft_succ h, Document.size_ofForest, List.reverse_append,
    List.reverse_singleton, List.singleton_append, Nat.zero_add]

theorem addLabelled_ofForest (h : HasSpine height ts) (tag : Tag) (content : String) :
    (ofForest layout height ts).addLabelled tag content =
      ofForest layout height (graft height [.labelled tag content] ts) := by
  unfold addLabelled
  rw [add_ofForest h]
  by_cases hcontent : content = ""
  · simp only [hcontent, if_true, labelled]
  · -- the text goes below the new element, which is not open but the next on the rightmost path
    have hadded := h.graft_succ (.node tag none none [])
    have hpush := Document.push_ofForest hadded .text none (some content)
    rw [spineFrom_graft_succ h, List.getLast?_concat, graft_succ_graft h, Nat.zero_add,
      List.nil_append] at hpush
    simp only [if_neg hcontent, labelled, ofForest, Document.size_ofForest, spineFrom_graft h]
    exact congrArg (fun d => Explainer.mk d _ _) hpush

theorem openLabelled_ofForest (h : HasSpine height ts) (tag : Tag) (content : String) :
    (ofForest layout height ts).openLabelled tag content =
      ofForest layout (height + 1) (graft height [.labelled tag content] ts) := by
  rw [openLabelled, addLabelled_ofForest h, open_ofForest layout h]

theorem addAttributeParts_ofForest (h : HasSpine height ts) (a : Attribute) :
    (ofForest layout height ts).addAttributeParts a =
      ofForest layout height (graft height a.parts ts) := by
  unfold addAttributeParts Attribute.parts
  cases hop : a.operator.punctuation with
  | none =>
      simp only [addText_ofForest, addLabelled_ofForest, h, HasSpine.graft, graft_graft]
      rfl
  | some op =>
      cases hliteral : a.literal with
      | none =>
          simp only [addText_ofForest, addLabelled_ofForest, h, HasSpine.graft, graft_graft]
          rfl
      | some literal =>
          simp only [addText_ofForest, addLabelled_ofForest, h, HasSpine.graft, graft_graft]
          rfl

/-! ## Closing -/

variable (layout)

theorem run_close {x : Explainer} {innermost : Nat} {outer : List Nat}
    (hcursor : x.cursor = innermost :: outer) (kind : NodeKind) :
    (close kind).run x = (.ok (), { x with cursor := outer }) := by
  obtain ⟨document, cursor, layout⟩ := x
  cases hcursor
  rfl

theorem cursor_ofForest_succ (h : HasSpine (height + 1) ts) :
    ∃ innermost, (ofForest layout (height + 1) ts).cursor =
      innermost :: (ofForest layout height ts).cursor := by
  have hne : spineFrom 0 (height + 1) ts ≠ [] := by
    cases h
    simp
  -- the cursor is the path from its end, so closing drops the last element of the path
  refine ⟨(spineFrom 0 (height + 1) ts).getLast hne, ?_⟩
  simp only [ofForest]
  rw [← dropLast_spineFrom h, ← List.reverse_concat, List.dropLast_concat_getLast hne]

theorem close_ofForest (h : HasSpine (height + 1) ts) (kind : NodeKind) :
    (close kind).run (ofForest layout (height + 1) ts) = (.ok (), ofForest layout height ts) := by
  obtain ⟨innermost, hcursor⟩ := cursor_ofForest_succ layout h
  exact run_close hcursor kind

theorem close_ofForest_zero (kind : NodeKind) :
    (close kind).run (ofForest layout 0 ts) =
      (.error (.unbalancedLeave kind), ofForest layout 0 ts) := rfl

/-! ## Handlers -/

theorem run_enter (h : HasSpine height ts) (tag : Tag) (content : String) :
    (enter tag content).run (ofForest layout height ts) =
      (.ok .descend, ofForest layout (height + 1) (graft height [.labelled tag content] ts)) := by
  rw [← openLabelled_ofForest h]
  rfl

theorem run_label (h : HasSpine height ts) (tag : Tag) (content : String) :
    (label tag content).run (ofForest layout height ts) =
      (.ok (), ofForest layout height (graft height [.labelled tag content] ts)) := by
  rw [← addLabelled_ofForest h]
  rfl

theorem run_visitAttribute (h : HasSpine height ts) (a : Attribute) :
    (visitAttribute a).run (ofForest layout height ts) =
      (.ok (), ofForest layout height
        (graft height [.node .attr (some a.operator) none a.parts] ts)) := by
  -- the parts go below the attribute's own element, which is open in between
  have hopened := h.graft_succ (.node .attr (some a.operator) none [])
  have hopen := open_ofForest layout h (.node .attr (some a.operator) none [])
  rw [← add_ofForest h] at hopen
  show (close (.simple .attr)).run (addAttributeParts
    { (ofForest layout height ts).add { tag := .attr, operator := some a.operator } with
      cursor := (ofForest layout height ts).document.size :: (ofForest layout height ts).cursor }
    a) = _
  rw [hopen, addAttributeParts_ofForest hopened, close_ofForest layout (hopened.graft _),
    graft_succ_graft h, List.nil_append]

theorem run_visitSimple (h : HasSpine height ts) (s : Simple) :
    (visitSimple s).run (ofForest layout height ts) =
      (.ok (), ofForest layout height (graft height [s.explanation] ts)) := by
  cases s with
  | universal space => exact run_label layout h _ _
  | type name space => exact run_label layout h _ _
  | id name => exact run_label layout h _ _
  | className name => exact run_label layout h _ _
  | attr test => exact run_visitAttribute layout h test

/-- Entering a group is refused exactly when the document holds something. -/
theorem enterGroup_run (x : Explainer) :
    enterGroup.run x =
      if x.document.isEmpty then (enter .selectorGroup "").run x else (.error .notCleared, x) := by
  show (if x.document.isEmpty then enter .selectorGroup "" else
    throw .notCleared : Handler Explainer ExplainError Flow).run x = _
  split <;> rfl

/-- The explainer with the text that stands before a sequence that is entered now. -/
def separated (x : Explainer) : Explainer :=
  if x.needsSeparator then x.addText Group.separator else x

theorem enterSequence_run (x : Explainer) :
    enterSequence.run x = (enter .selector "").run x.separated := rfl

/-- That text as a tree, if there is one. -/
def separators (x : Explainer) : List Tree :=
  if x.needsSeparator then [.ofText Group.separator] else []

theorem textLeaves_separators (x : Explainer) : TextLeaves x.separators := by
  unfold separators
  split
  · exact textLeaves_text (by decide)
  · exact .nil

theorem separated_ofForest (h : HasSpine height ts) :
    (ofForest layout height ts).separated =
      ofForest layout height (graft height (ofForest layout height ts).separators ts) := by
  unfold separated separators
  split
  · rw [addText_ofForest h]
  · rw [graft_nil h]

theorem run_enterSequence (h : HasSpine height ts) :
    enterSequence.run (ofForest layout height ts) =
      (.ok .descend, ofForest layout (height + 1)
        (graft height [.node .selector none none []]
          (graft height (ofForest layout height ts).separators ts))) := by
  rw [enterSequence_run, separated_ofForest layout h, run_enter layout (h.graft _)]
  rfl

theorem run_enterGroup_empty :
    enterGroup.run (ofForest layout 0 []) =
      (.ok .descend, ofForest layout 1 [.node .selectorGroup none none []]) := rfl

theorem needsSeparator_eq {x : Explainer} {id : Nat} {e : Element}
    (hpoint : x.insertionPoint = some id) (hget : x.document.get? id = some e) :
    x.needsSeparator = (e.tag == .selectorGroup && !e.children.isEmpty) := by
  unfold needsSeparator
  rw [hpoint, Option.bind_some, hget]

/-- A separator is needed in a group that has a sequence already, and nowhere else. -/
theorem needsSeparator_ofForest (h : HasSpine height ts) (tag : Tag) (operator : Option Operator)
    (text : Option String) (children : List Tree) :
    (ofForest layout (height + 1)
        (graft height [.node tag operator text children] ts)).needsSeparator =
      (tag == .selectorGroup && !children.isEmpty) := by
  obtain ⟨hroot, -, -⟩ := (Document.holds_graft h [.node tag operator text children]).cons
  have hpoint : (ofForest layout (height + 1)
      (graft height [.node tag operator text children] ts)).insertionPoint =
      some (sizeOfForest ts) := by
    rw [insertionPoint_ofForest, spineFrom_graft_succ h, List.getLast?_concat, Nat.zero_add]
  rw [needsSeparator_eq hpoint hroot]
  cases children <;> rfl

end Explainer

end SelectorExplain
