import Mathlib.Data.List.Basic
import SelectorExplain.Document.Json
import SelectorExplain.Proofs.Document.Preorder

set_option autoImplicit false

/-! # Appending below an index that is no element

An index may outlive its element: it is kept while the document is cleared, or it comes from another
document. `Document.append` stores the new element before it looks the parent up, so below such an
index the new element stays behind without being attached to a root, and when the index is the very
one that the new element gets, the append is not even refused: the element becomes its own child.

The main statement says what such an append leaves as it was (`append_unattached`): every element
there was, the roots, and whatever is printed. Printing goes down from the roots along indices that
grow, and it never meets the new element. That holds of any document that has been built up by
appends, since each element is entered at one place only (`Grown`). -/

namespace SelectorExplain

namespace Document

/-! ## Documents that are built up -/

/-- A change of a document: an element or a text is appended, or all are discarded. -/
inductive Change where
  | element (parent : Option Nat) (tag : Tag) (operator : Option Operator)
  | text (parent : Option Nat) (content : String)
  | clear
  deriving DecidableEq, Repr

/-- The document after a change, whether an append has been refused or not. -/
def changed (d : Document) : Change → Document
  | .element parent tag operator => (d.append parent { tag, operator }).2
  | .text parent content => (d.append parent (.ofText content)).2
  | .clear => .empty

/-- The document that an empty one has become after some changes. -/
def built (changes : List Change) : Document := changes.foldl changed .empty

theorem append_snd (d : Document) (parent : Option Nat) (e : Element) :
    (d.append parent e).2 = d.push parent e := by
  cases parent <;> rfl

/-! ## What an append changes -/

theorem get?_eq_none {d : Document} {id : Nat} (h : d.size ≤ id) : d.get? id = none :=
  Array.getElem?_eq_none h

theorem get?_push_none (d : Document) (e : Element) (id : Nat) :
    (d.push none e).get? id = if id = d.size then some e else d.get? id :=
  Array.getElem?_push

/-- The parent of a new element is looked up when the element is there. -/
theorem get?_push_some (d : Document) (parent : Nat) (e : Element) (id : Nat) :
    (d.push (some parent) e).get? id =
      if parent = id then
        ((d.push none e).get? id).map fun p => { p with children := p.children ++ [d.size] }
      else (d.push none e).get? id :=
  Array.getElem?_modify

/-- A new element without children gets the last place below its parent, and no other list of
    children changes. -/
theorem childrenOf_push (d : Document) (parent : Option Nat) {e : Element} (he : e.children = [])
    (place : Option Nat) :
    (d.push parent e).childrenOf place =
      d.childrenOf place ++
        if parent = place ∧ ∀ id ∈ place, id ≤ d.size then [d.size] else [] := by
  cases place with
  | none => cases parent <;> simp [childrenOf, push]
  | some id =>
      have hnew : d.childrenOf (some d.size) = [] := by
        rw [childrenOf, get?_eq_none (Nat.le_refl _)]
        rfl
      -- as a root the new element has no children, and all others keep theirs
      have hroot : (d.push none e).childrenOf (some id) = d.childrenOf (some id) := by
        rw [childrenOf, get?_push_none]
        by_cases hid : id = d.size
        · rw [if_pos hid, hid, hnew]
          exact he
        · rw [if_neg hid]
          rfl
      cases parent with
      | none => simpa using hroot
      | some parent =>
          by_cases hparent : parent = id
          · subst hparent
            rw [← hroot, childrenOf, childrenOf, get?_push_some, if_pos rfl]
            by_cases hid : parent ≤ d.size
            · obtain ⟨p, hp⟩ : ∃ p, (d.push none e).get? parent = some p :=
                ⟨_, Array.getElem?_eq_getElem (by
                  show parent < (d.push none e).size
                  rw [size_push]
                  omega)⟩
              simp [hp, hid]
            · have hnone : (d.push none e).get? parent = none := get?_eq_none (by
                rw [size_push]
                omega)
              simp [hnone, hid]
          · rw [childrenOf, get?_push_some, if_neg hparent, if_neg (by simp [hparent]),
              List.append_nil]
            exact hroot

/-! ## Documents that have grown -/

/-- What holds of a document that has been built up. Children come after their parents, and only an
    element that no root leads to may be its own child. -/
structure Grown (d : Document) : Prop where
  roots_lt : ∀ id ∈ d.roots, id < d.size
  child_bounds : ∀ id, ∀ child ∈ d.childrenOf (some id), id ≤ child ∧ child < d.size
  not_own_child : ∀ id, d.Attached id → id ∉ d.childrenOf (some id)

theorem grown_empty : Grown .empty where
  roots_lt := by simp [empty]
  child_bounds := by simp [childrenOf, get?, empty]
  not_own_child := by simp [childrenOf, get?, empty]

variable {d : Document}

theorem Grown.lt_of_attached (h : d.Grown) {id : Nat} (hid : d.Attached id) : id < d.size := by
  cases hid with
  | root hroot => exact h.roots_lt id hroot
  | child _ hchild => exact (h.child_bounds _ id hchild).2

theorem Grown.lt_child (h : d.Grown) {id child : Nat} (hid : d.Attached id)
    (hchild : child ∈ d.childrenOf (some id)) : id < child := by
  refine Nat.lt_of_le_of_ne (h.child_bounds id child hchild).1 ?_
  rintro rfl
  exact h.not_own_child _ hid hchild

/-- What a root leads to after an append is the new element, or a root led to it before. -/
theorem Grown.attached_of_push (h : d.Grown) {parent : Option Nat} {e : Element}
    (he : e.children = []) {id : Nat} (hid : (d.push parent e).Attached id) :
    d.Attached id ∨ (id = d.size ∧ parent ≠ some d.size) := by
  induction hid with
  | root hroot =>
      have hroots := childrenOf_push d parent he none
      simp only [childrenOf] at hroots
      rw [hroots, List.mem_append] at hroot
      rcases hroot with hroot | hroot
      · exact .inl (.root hroot)
      · split at hroot
        · next hparent =>
            rw [List.mem_singleton] at hroot
            refine .inr ⟨hroot, ?_⟩
            rw [hparent.1]
            simp
        · cases hroot
  | @child ancestor id _ hchild ih =>
      rw [childrenOf_push d parent he, List.mem_append] at hchild
      rcases hchild with hchild | hchild
      · rcases ih with hancestor | ⟨rfl, -⟩
        · exact .inl (.child hancestor hchild)
        · -- there was no element yet that could have had children
          have hbounds := h.child_bounds _ id hchild
          omega
      · split at hchild
        · next hparent =>
            rw [List.mem_singleton] at hchild
            refine .inr ⟨hchild, ?_⟩
            rw [hparent.1]
            rcases ih with hancestor | ⟨rfl, hother⟩
            · have := h.lt_of_attached hancestor
              simp only [ne_eq, Option.some.injEq]
              omega
            · exact absurd hparent.1 hother
        · cases hchild

theorem Grown.push (h : d.Grown) (parent : Option Nat) {e : Element} (he : e.children = []) :
    (d.push parent e).Grown where
  roots_lt := by
    intro id hid
    have hroots := childrenOf_push d parent he none
    simp only [childrenOf] at hroots
    rw [hroots, List.mem_append] at hid
    rw [size_push]
    rcases hid with hid | hid
    · have := h.roots_lt id hid
      omega
    · split at hid
      · rw [List.mem_singleton] at hid
        omega
      · cases hid
  child_bounds := by
    intro id child hchild
    rw [childrenOf_push d parent he, List.mem_append] at hchild
    rw [size_push]
    rcases hchild with hchild | hchild
    · have := h.child_bounds id child hchild
      omega
    · split at hchild
      · next hparent =>
          have hid : id ≤ d.size := hparent.2 id rfl
          rw [List.mem_singleton] at hchild
          omega
      · cases hchild
  not_own_child := by
    intro id hid hchild
    rw [childrenOf_push d parent he, List.mem_append] at hchild
    rcases h.attached_of_push he hid with hid | ⟨rfl, hparent⟩
    · rcases hchild with hchild | hchild
      · exact h.not_own_child id hid hchild
      · -- an element that was there is not the new one
        have hlt := h.lt_of_attached hid
        split at hchild
        · rw [List.mem_singleton] at hchild
          omega
        · cases hchild
    · rcases hchild with hchild | hchild
      · have hbounds := h.child_bounds _ _ hchild
        omega
      · split at hchild
        · next hplace => exact hparent hplace.1
        · cases hchild

theorem Grown.changed (h : d.Grown) (c : Change) : (d.changed c).Grown := by
  cases c with
  | element parent tag operator =>
      rw [Document.changed, append_snd]
      exact h.push parent rfl
  | text parent content =>
      rw [Document.changed, append_snd]
      exact h.push parent rfl
  | clear => exact grown_empty

theorem grown_built (changes : List Change) : (built changes).Grown := by
  have hrun : ∀ d : Document, d.Grown → (changes.foldl Document.changed d).Grown := by
    induction changes with
    | nil => exact fun d hd => hd
    | cons c changes ih => exact fun d hd => ih _ (hd.changed c)
  exact hrun .empty grown_empty

/-! ## What stays -/

/-- An element without children is unfolded at once. -/
theorem treeWithin_eq_leaf {id : Nat} (h : d.childrenOf (some id) = []) (bound : Nat) :
    d.treeWithin bound id = (d.get? id).map fun e => .node e.tag e.operator e.text [] := by
  cases bound with
  | zero => rfl
  | succ bound =>
      rw [treeWithin]
      cases hget : d.get? id with
      | none => rfl
      | some e =>
          have hchildren : e.children = [] := by simpa [childrenOf, hget] using h
          simp [hchildren]

/-- The last element of the array has no children, if a root leads to it. -/
theorem Grown.childrenOf_last (h : d.Grown) {id : Nat} (hid : d.Attached id)
    (hlast : d.size ≤ id + 1) : d.childrenOf (some id) = [] := by
  refine List.eq_nil_iff_forall_not_mem.2 fun child hchild => ?_
  have hafter := h.lt_child hid hchild
  have hbounds := h.child_bounds id child hchild
  omega

/-- Unfolding goes along growing indices, so that it meets the same elements in a document that has
    the same elements and more, whatever the bounds are, if they are large enough. -/
theorem Grown.treeWithin_eq (h : d.Grown) {more : Document}
    (hsame : ∀ id < d.size, more.get? id = d.get? id) :
    ∀ {bound other id : Nat}, d.Attached id → d.size ≤ id + bound + 1 → d.size ≤ id + other + 1 →
      more.treeWithin other id = d.treeWithin bound id := by
  have hchildren : ∀ id < d.size, more.childrenOf (some id) = d.childrenOf (some id) := by
    intro id hid
    rw [childrenOf, childrenOf, hsame id hid]
  -- at either bound there is nothing left to unfold
  have hleaf : ∀ {bound other id : Nat}, d.Attached id → d.size ≤ id + 1 →
      more.treeWithin other id = d.treeWithin bound id := by
    intro bound other id hid hlast
    have hlt := h.lt_of_attached hid
    have hnone := h.childrenOf_last hid hlast
    rw [treeWithin_eq_leaf hnone, treeWithin_eq_leaf ((hchildren id hlt).trans hnone),
      hsame id hlt]
  intro bound
  induction bound with
  | zero => exact fun hid hbound _ => hleaf hid hbound
  | succ bound ih =>
      intro other id hid hbound hother
      cases other with
      | zero => exact hleaf hid hother
      | succ other =>
          rw [treeWithin, treeWithin, hsame id (h.lt_of_attached hid)]
          cases hget : d.get? id with
          | none => rfl
          | some e =>
              have hbelow : ∀ child ∈ e.children,
                  more.treeWithin other child = d.treeWithin bound child := by
                intro child hchild
                have hmem : child ∈ d.childrenOf (some id) := by simpa [childrenOf, hget]
                have hafter := h.lt_child hid hmem
                exact ih (.child hid hmem) (by omega) (by omega)
              rw [Option.map_some, Option.map_some, List.filterMap_congr hbelow]

theorem Grown.forest_eq (h : d.Grown) {more : Document} (hroots : more.roots = d.roots)
    (hsize : d.size ≤ more.size) (hsame : ∀ id < d.size, more.get? id = d.get? id) :
    more.forest = d.forest := by
  rw [forest, forest, hroots]
  exact List.filterMap_congr fun id hid => h.treeWithin_eq hsame (.root hid) (by omega) (by omega)

/-- **What an append leaves as it was.** Below an index that is no element of a document, an append
    is refused unless the index is that of the new element. Either way the new element stays in the
    array, in the second case as its own child, and nothing else changes: neither the elements there
    were, nor the roots, nor what is printed. -/
theorem append_unattached (changes : List Change) {id : Nat} (hid : (built changes).size ≤ id)
    {e : Element} (he : e.children = []) :
    ((built changes).append (some id) e).1 =
        (if id = (built changes).size then .ok id else .error .noSuchParent) ∧
      ((built changes).append (some id) e).2.size = (built changes).size + 1 ∧
      ((built changes).append (some id) e).2.get? (built changes).size =
        some { e with children := if id = (built changes).size then [id] else [] } ∧
      (∀ j < (built changes).size,
        ((built changes).append (some id) e).2.get? j = (built changes).get? j) ∧
      ((built changes).append (some id) e).2.roots = (built changes).roots ∧
      ((built changes).append (some id) e).2.isEmpty = (built changes).isEmpty ∧
      ((built changes).append (some id) e).2.text = (built changes).text ∧
      (∀ layout, ((built changes).append (some id) e).2.toXml layout =
        (built changes).toXml layout) ∧
      ((built changes).append (some id) e).2.toJson = (built changes).toJson := by
  have hgrown := grown_built changes
  generalize built changes = d at hid hgrown ⊢
  rw [append_snd]
  have hsame : ∀ j < d.size, (d.push (some id) e).get? j = d.get? j := by
    intro j hj
    rw [get?_push_some, if_neg (by omega), get?_push_none, if_neg (by omega)]
  have hroots : (d.push (some id) e).roots = d.roots := rfl
  have hforest : (d.push (some id) e).forest = d.forest :=
    hgrown.forest_eq hroots (by simp) hsame
  refine ⟨?_, size_push _ _ _, ?_, hsame, hroots, ?_, ?_, fun layout => ?_, ?_⟩
  · rw [append]
    by_cases hnew : id = d.size
    · simp [hnew]
    · simp only [if_neg hnew, if_neg (show ¬id ≤ d.size by omega)]
  · rw [get?_push_some, get?_push_none, if_pos rfl]
    by_cases hnew : id = d.size
    · simp [hnew, he]
    · simp only [if_neg hnew, ← he]
  · rw [isEmpty, isEmpty, hroots]
  · rw [text, text, hforest]
  · rw [toXml, toXml, xmlMarks, xmlMarks, hforest, isEmpty, isEmpty, hroots]
  · rw [toJson, toJson, hforest]

/-- Below an index from before a clear, an append may be accepted, and the new element is its own
    child. -/
theorem append_unattached_accepted :
    (built [.element none .selector none, .clear]).size ≤ 0 ∧
      (built [.element none .selector none, .clear]).append (some 0) { tag := .type } =
        (.ok 0, { elements := #[{ tag := .type, children := [0] }], roots := [] }) := by
  decide

/-- A refused append leaves its element behind. -/
theorem append_unattached_refused :
    (built [.element none .selector none]).size ≤ 2 ∧
      (((built [.element none .selector none]).append (some 2) { tag := .type }).1 =
          .error .noSuchParent ∧
        ((built [.element none .selector none]).append (some 2) { tag := .type }).2.size = 2) := by
  have h := append_unattached [.element none .selector none] (show _ ≤ 2 by decide)
    (show ({ tag := .type } : Element).children = [] from rfl)
  exact ⟨by decide, h.1, h.2.1⟩

end Document

end SelectorExplain
