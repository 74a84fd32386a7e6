import SelectorExplain.Proofs.Document.Graft

set_option autoImplicit false

/-! # What adding trees leaves alone

`ExtendedBy d parent new d'` says that `d'` is `d` with some trees added below one element or to the
roots, seen from the array: the new elements stand behind the earlier ones and unfold to the new
trees, and of the earlier ones only `parent` has changed, which has the new roots as its last
children.

Grafting on the document of a forest is such an extension (`extendedBy_graft`). The text of the
forest then grows at its end (`textOfForest_graft`), for the place of the graft is on the rightmost
path. -/

namespace SelectorExplain

namespace Document

/-- `after` is `before` with the trees `new` added at the end of the children of `parent`, or of the
    roots, and is otherwise unchanged. -/
structure ExtendedBy (before : Document) (parent : Option Nat) (new : List Tree)
    (after : Document) : Prop where
  size : after.size = before.size + Tree.sizeOfForest new
  earlier : ∀ id < before.size, after.get? id = (before.get? id).map fun e =>
    if parent = some id then
      { e with children := e.children ++ Tree.rootsFrom before.size new } else e
  roots : after.roots =
    if parent = none then before.roots ++ Tree.rootsFrom before.size new else before.roots
  added : after.elements.toList.drop before.size = Tree.elementsOfForest before.size new
  unfolds : (Tree.rootsFrom before.size new).filterMap (after.treeWithin after.size) = new

end Document

namespace Tree

variable {height : Nat} {ts : List Tree}

theorem sizeOfForest_graft (h : HasSpine height ts) (new : List Tree) :
    sizeOfForest (graft height new ts) = sizeOfForest ts + sizeOfForest new := by
  induction h with
  | zero ts => rw [graft_zero, sizeOfForest_append]
  | succ init tag operator text below ih =>
      rw [graft_concat, sizeOfForest_concat, sizeOfForest_concat, ih]
      omega

/-- What is grafted comes last in the text. -/
theorem textOfForest_graft (h : HasSpine height ts) (new : List Tree) :
    textOfForest (graft height new ts) = textOfForest ts ++ textOfForest new := by
  induction h with
  | zero ts => rw [graft_zero, textOfForest_append]
  | succ init tag operator content below ih =>
      rw [graft_concat, textOfForest_append, textOfForest_append, textOfForest_cons,
        textOfForest_cons, text, text, ih]
      simp only [textOfForest_nil, String.append_empty, String.append_assoc]

end Tree

namespace Document

open SelectorExplain.Tree

variable {height : Nat} {ts : List Tree}

theorem get?_ofForest (ts : List Tree) (id : Nat) :
    (ofForest ts).get? id = (elementsOfForest 0 ts)[id]? := by
  simp [get?, ofForest]

/-- **Grafting extends a document** by what is grafted, below the last element of the rightmost path
    down to the height of the graft. -/
theorem extendedBy_graft (h : HasSpine height ts) (new : List Tree) :
    (ofForest ts).ExtendedBy (spineFrom 0 height ts).getLast? new
      (ofForest (graft height new ts)) where
  size := by rw [size_ofForest, size_ofForest, sizeOfForest_graft h]
  earlier := by
    intro id hid
    rw [size_ofForest] at hid
    have hlength : id < (elementsOfForest 0 ts).length := by rwa [length_elementsOfForest]
    rw [get?_ofForest, get?_ofForest, size_ofForest]
    cases height with
    | zero =>
        -- with nothing open no earlier element changes
        rw [graft_zero, elementsOfForest_append, List.getElem?_append_left hlength]
        simp
    | succ height =>
        obtain ⟨offset, hlast, -, hgraft⟩ := elementsOfForest_graft 0 h
        rw [hlast, (hgraft new).2, List.getElem?_append_left (by rwa [List.length_modify]),
          List.getElem?_modify]
        by_cases hoffset : offset = id
        · simp [hoffset]
        · simp [hoffset]
  roots := by
    rw [size_ofForest]
    cases height with
    | zero => simp [ofForest, rootsFrom_append]
    | succ height =>
        obtain ⟨offset, hlast, -, hgraft⟩ := elementsOfForest_graft 0 h
        rw [hlast, if_neg (by simp)]
        exact (hgraft new).1
  added := by
    obtain ⟨before, after, hbefore, harray⟩ := holds_graft h new
    -- nothing stands behind what has been grafted, since that is all that is new
    have hlength := congrArg List.length harray
    simp only [ofForest, List.length_append, length_elementsOfForest, sizeOfForest_graft h,
      hbefore] at hlength
    obtain rfl : after = [] := List.eq_nil_of_length_eq_zero (by omega)
    rw [size_ofForest, harray, List.append_nil, ← hbefore, List.drop_left]
  unfolds := by
    rw [size_ofForest, size_ofForest, sizeOfForest_graft h]
    exact (holds_graft h new).filterMap_treeWithin (by omega)

end Document

end SelectorExplain
