import SelectorExplain.Document.Tree

set_option autoImplicit false

/-! # Documents whose array is in document order

A forest can be laid out as a document: the elements in pre-order, each with the indices at which
its children come to stand. `Document.ofForest` is that document. Unfolding it gives the forest back
(`forest_ofForest`), going through it from the roots meets the indices from first to last
(`preorder_ofForest`), and so its text can be read off the array from left to right
(`text_ofForest`).

Not every document is of this form: elements may be added below any earlier one, and then the array
is in order of time only. -/

namespace SelectorExplain

/-! ## Forests -/

namespace Tree

/-- Induction on a forest: on what is below its first root, and on its other roots. -/
@[elab_as_elim]
theorem forestInduction {motive : List Tree → Prop} (nil : motive [])
    (cons : ∀ tag operator text children rest, motive children → motive rest →
      motive (.node tag operator text children :: rest)) (ts : List Tree) : motive ts :=
  match ts with
  | [] => nil
  | .node tag operator text children :: rest =>
    cons tag operator text children rest (forestInduction nil cons children)
      (forestInduction nil cons rest)

mutual

/-- The number of elements of a tree. -/
def size : Tree → Nat
  | node _ _ _ children => sizeOfForest children + 1

/-- The number of elements of several trees. -/
def sizeOfForest : List Tree → Nat
  | [] => 0
  | t :: rest => t.size + sizeOfForest rest

end

/-- The indices of the roots of trees that are laid out one behind the other. -/
def rootsFrom (start : Nat) : List Tree → List Nat
  | [] => []
  | t :: rest => start :: rootsFrom (start + t.size) rest

mutual

/-- The elements of a tree in document order, the first with the index `start`. -/
def elementsFrom (start : Nat) : Tree → List Element
  | node tag operator text children =>
    { tag, operator, text, children := rootsFrom (start + 1) children } ::
      elementsOfForest (start + 1) children

/-- The elements of several trees in document order, the first with the index `start`. -/
def elementsOfForest (start : Nat) : List Tree → List Element
  | [] => []
  | t :: rest => t.elementsFrom start ++ elementsOfForest (start + t.size) rest

end

@[simp] theorem sizeOfForest_nil : sizeOfForest [] = 0 := rfl

@[simp] theorem sizeOfForest_cons (tag : Tag) (operator : Option Operator) (text : Option String)
    (children rest : List Tree) :
    sizeOfForest (.node tag operator text children :: rest) =
      sizeOfForest children + 1 + sizeOfForest rest := rfl

theorem sizeOfForest_append (a b : List Tree) :
    sizeOfForest (a ++ b) = sizeOfForest a + sizeOfForest b := by
  induction a with
  | nil => simp
  | cons t rest ih => simp only [List.cons_append, sizeOfForest, ih]; omega

theorem rootsFrom_append (a b : List Tree) (start : Nat) :
    rootsFrom start (a ++ b) = rootsFrom start a ++ rootsFrom (start + sizeOfForest a) b := by
  induction a generalizing start with
  | nil => rfl
  | cons t rest ih => simp [rootsFrom, ih, sizeOfForest, Nat.add_assoc]

theorem elementsOfForest_append (a b : List Tree) (start : Nat) :
    elementsOfForest start (a ++ b) =
      elementsOfForest start a ++ elementsOfForest (start + sizeOfForest a) b := by
  induction a generalizing start with
  | nil => rfl
  | cons t rest ih => simp [elementsOfForest, ih, sizeOfForest, Nat.add_assoc]

theorem elementsOfForest_cons (tag : Tag) (operator : Option Operator) (text : Option String)
    (children rest : List Tree) (start : Nat) :
    elementsOfForest start (.node tag operator text children :: rest) =
      { tag, operator, text, children := rootsFrom (start + 1) children } ::
        (elementsOfForest (start + 1) children ++
          elementsOfForest (start + (sizeOfForest children + 1)) rest) := rfl

@[simp] theorem length_elementsOfForest (ts : List Tree) (start : Nat) :
    (elementsOfForest start ts).length = sizeOfForest ts := by
  induction ts using forestInduction generalizing start with
  | nil => rfl
  | cons tag operator text children rest ihChildren ihRest =>
      rw [elementsOfForest_cons, List.length_cons, List.length_append, ihChildren, ihRest,
        sizeOfForest_cons]
      omega

@[simp] theorem textOfForest_nil : textOfForest [] = "" := rfl

@[simp] theorem textOfForest_cons (t : Tree) (rest : List Tree) :
    textOfForest (t :: rest) = t.text ++ textOfForest rest := rfl

@[simp] theorem textOfForest_append (a b : List Tree) :
    textOfForest (a ++ b) = textOfForest a ++ textOfForest b := by
  induction a with
  | nil => simp
  | cons t rest ih => simp [ih, String.append_assoc]

@[simp] theorem text_ofText (content : String) : (ofText content).text = content := by
  simp [ofText, text]

/-- The text of a forest is that of its elements in document order. -/
theorem textOfForest_eq_join (ts : List Tree) (start : Nat) :
    textOfForest ts =
      String.join ((elementsOfForest start ts).map fun e => e.text.getD "") := by
  induction ts using forestInduction generalizing start with
  | nil => rfl
  | cons tag operator content children rest ihChildren ihRest =>
      rw [elementsOfForest_cons, List.map_cons, List.map_append, String.join_cons,
        String.join_append, ← ihChildren, ← ihRest, textOfForest, text, String.append_assoc]

end Tree

/-! ## The document of a forest -/

namespace Document

/-- The document that has the elements of a forest in document order. -/
def ofForest (ts : List Tree) : Document where
  elements := (Tree.elementsOfForest 0 ts).toArray
  roots := Tree.rootsFrom 0 ts

@[simp] theorem size_ofForest (ts : List Tree) :
    (ofForest ts).size = Tree.sizeOfForest ts := by
  simp [ofForest, size]

/-- A forest stands in the array in document order, the first element at the index `start`. -/
def Holds (d : Document) (start : Nat) (ts : List Tree) : Prop :=
  ∃ before after, before.length = start ∧
    d.elements.toList = before ++ (Tree.elementsOfForest start ts ++ after)

theorem holds_ofForest (ts : List Tree) : (ofForest ts).Holds 0 ts :=
  ⟨[], [], rfl, by simp [ofForest]⟩

/-- The first root, what is below it and the other roots stand one behind the other. -/
theorem Holds.cons {d : Document} {start : Nat} {tag : Tag} {operator : Option Operator}
    {text : Option String} {children rest : List Tree}
    (h : d.Holds start (.node tag operator text children :: rest)) :
    d.get? start =
        some { tag, operator, text, children := Tree.rootsFrom (start + 1) children } ∧
      d.Holds (start + 1) children ∧ d.Holds (start + (Tree.sizeOfForest children + 1)) rest := by
  obtain ⟨before, after, rfl, harray⟩ := h
  rw [Tree.elementsOfForest_cons] at harray
  -- the array is cut behind the first root and behind what is below it
  generalize Element.mk tag operator text (Tree.rootsFrom (before.length + 1) children) = root
    at harray ⊢
  refine ⟨?_, ⟨before ++ [root],
    Tree.elementsOfForest (before.length + (Tree.sizeOfForest children + 1)) rest ++ after,
    by simp, ?_⟩, ⟨before ++ root :: Tree.elementsOfForest (before.length + 1) children, after,
    by simp, ?_⟩⟩
  · rw [get?, ← Array.getElem?_toList, harray]
    simp
  · simp [harray]
  · simp [harray]

theorem filterMap_eq_of_map_eq {α β : Type} {f : α → Option β} {l : List α} {values : List β}
    (h : l.map f = values.map some) : l.filterMap f = values := by
  have hmap := congrArg (List.filterMap id) h
  simpa [List.filterMap_map] using hmap

/-- Unfolding the indices of the roots gives the forest back, however deep one looks. -/
theorem Holds.map_treeWithin {d : Document} {ts : List Tree} :
    ∀ {start bound : Nat}, d.Holds start ts → Tree.sizeOfForest ts ≤ bound →
      (Tree.rootsFrom start ts).map (d.treeWithin bound) = ts.map some := by
  induction ts using Tree.forestInduction with
  | nil => intros; rfl
  | cons tag operator text children rest ihChildren ihRest =>
      intro start bound h hbound
      obtain ⟨hroot, hchildren, hrest⟩ := h.cons
      rw [Tree.sizeOfForest_cons] at hbound
      -- below the root there are fewer elements, so one level less is enough for its children
      obtain ⟨bound, rfl⟩ : ∃ n, bound = n + 1 := ⟨bound - 1, by omega⟩
      have hbelow := filterMap_eq_of_map_eq (ihChildren hchildren (by omega : _ ≤ bound))
      have htree : d.treeWithin (bound + 1) start = some (.node tag operator text children) := by
        rw [treeWithin, hroot, Option.map_some, hbelow]
      rw [Tree.rootsFrom, List.map_cons, List.map_cons, htree]
      exact congrArg _ (ihRest hrest (by omega))

theorem Holds.filterMap_treeWithin {d : Document} {ts : List Tree} {start bound : Nat}
    (h : d.Holds start ts) (hbound : Tree.sizeOfForest ts ≤ bound) :
    (Tree.rootsFrom start ts).filterMap (d.treeWithin bound) = ts :=
  filterMap_eq_of_map_eq (h.map_treeWithin hbound)

/-- **Unfolding the document of a forest gives the forest back.** -/
theorem forest_ofForest (ts : List Tree) : (ofForest ts).forest = ts :=
  (holds_ofForest ts).filterMap_treeWithin (by simp)

/-! ## The order in which elements are met -/

/-- The index of an element and those of what is below it, parents first, down to `bound` levels. -/
def indicesWithin (d : Document) : (bound : Nat) → Nat → List Nat
  | 0, id => [id]
  | bound + 1, id => id :: (d.childrenOf (some id)).flatMap (d.indicesWithin bound)

/-- The indices of a document as they are met from the roots, in document order. -/
def preorder (d : Document) : List Nat := d.roots.flatMap (d.indicesWithin d.size)

/-- The elements that are met from the roots. -/
inductive Attached (d : Document) : Nat → Prop
  | root {id : Nat} (hroot : id ∈ d.roots) : Attached d id
  | child {parent id : Nat} (hparent : Attached d parent)
      (hchild : id ∈ d.childrenOf (some parent)) : Attached d id

theorem attached_of_mem_indicesWithin {d : Document} (bound : Nat) :
    ∀ {id : Nat}, d.Attached id → ∀ j ∈ d.indicesWithin bound id, d.Attached j := by
  induction bound with
  | zero =>
      intro id hid j hj
      rw [indicesWithin, List.mem_singleton] at hj
      rwa [hj]
  | succ bound ih =>
      intro id hid j hj
      rw [indicesWithin, List.mem_cons, List.mem_flatMap] at hj
      rcases hj with rfl | ⟨child, hchild, hj⟩
      · exact hid
      · exact ih (.child hid hchild) j hj

theorem attached_of_mem_preorder {d : Document} {id : Nat} (h : id ∈ d.preorder) :
    d.Attached id := by
  obtain ⟨root, hroot, hid⟩ := List.mem_flatMap.1 h
  exact attached_of_mem_indicesWithin d.size (.root hroot) id hid

theorem Holds.flatMap_indicesWithin {d : Document} {ts : List Tree} :
    ∀ {start bound : Nat}, d.Holds start ts → Tree.sizeOfForest ts ≤ bound →
      (Tree.rootsFrom start ts).flatMap (d.indicesWithin bound) =
        List.range' start (Tree.sizeOfForest ts) := by
  induction ts using Tree.forestInduction with
  | nil => intros; rfl
  | cons tag operator text children rest ihChildren ihRest =>
      intro start bound h hbound
      obtain ⟨hroot, hchildren, hrest⟩ := h.cons
      rw [Tree.sizeOfForest_cons] at hbound
      obtain ⟨bound, rfl⟩ : ∃ n, bound = n + 1 := ⟨bound - 1, by omega⟩
      have hindices : d.indicesWithin (bound + 1) start =
          List.range' start (Tree.sizeOfForest children + 1) := by
        rw [indicesWithin, childrenOf, hroot, List.range'_succ]
        exact congrArg _ (ihChildren hchildren (by omega))
      have hbehind := ihRest hrest (show _ ≤ bound + 1 by omega)
      calc (Tree.rootsFrom start (.node tag operator text children :: rest)).flatMap
            (d.indicesWithin (bound + 1))
          = List.range' start (Tree.sizeOfForest children + 1) ++
              List.range' (start + (Tree.sizeOfForest children + 1)) (Tree.sizeOfForest rest) := by
            rw [← hindices, ← hbehind]
            rfl
        _ = List.range' start (Tree.sizeOfForest children + 1 + Tree.sizeOfForest rest) :=
            List.range'_append_1 ..

/-- **The array is in document order.** -/
theorem preorder_ofForest (ts : List Tree) :
    (ofForest ts).preorder = List.range (ofForest ts).size := by
  rw [List.range_eq_range', size_ofForest]
  exact (holds_ofForest ts).flatMap_indicesWithin (by simp)

/-! ## The text of a document in document order -/

/-- The text can be read off the array from left to right. -/
theorem text_ofForest (ts : List Tree) :
    (ofForest ts).text =
      String.join ((ofForest ts).elements.toList.map fun e => e.text.getD "") := by
  rw [text, forest_ofForest]
  exact Tree.textOfForest_eq_join ts 0

end Document

end SelectorExplain
