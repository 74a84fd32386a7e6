import SelectorExplain.Proofs.Document.Graft

set_option autoImplicit false

/-! # The subtrees of a forest

Each element of a forest is the root of a subtree. `Tree.subtreesOfForest` lists the subtrees in
document order, so that what is asked of an element together with what is below it is asked of the
members of one list (`Everywhere`), and what is read off a forest element by element is a map over
it.

In the document of a forest, the subtree at a position of this list is what stands at the same index
of the array (`get?_ofForest_eq_some`). -/

namespace SelectorExplain

namespace Tree

/-- The text of an element itself, without what is below it. -/
def content : Tree → Option String
  | node _ _ content _ => content

mutual

/-- A tree and everything below it, in document order. -/
def subtrees : Tree → List Tree
  | node tag operator content children =>
    node tag operator content children :: subtreesOfForest children

/-- The subtrees of several trees, in document order. -/
def subtreesOfForest : List Tree → List Tree
  | [] => []
  | t :: rest => t.subtrees ++ subtreesOfForest rest

end

@[simp] theorem subtreesOfForest_nil : subtreesOfForest [] = [] := rfl

@[simp] theorem subtreesOfForest_cons (tag : Tag) (operator : Option Operator)
    (content : Option String) (children rest : List Tree) :
    subtreesOfForest (.node tag operator content children :: rest) =
      .node tag operator content children ::
        (subtreesOfForest children ++ subtreesOfForest rest) := rfl

@[simp] theorem subtreesOfForest_append (a b : List Tree) :
    subtreesOfForest (a ++ b) = subtreesOfForest a ++ subtreesOfForest b := by
  induction a with
  | nil => rfl
  | cons t rest ih => rw [List.cons_append, subtreesOfForest, subtreesOfForest, ih,
      List.append_assoc]

@[simp] theorem length_subtreesOfForest (ts : List Tree) :
    (subtreesOfForest ts).length = sizeOfForest ts := by
  induction ts using forestInduction with
  | nil => rfl
  | cons tag operator content children rest ihChildren ihRest =>
      rw [subtreesOfForest_cons, sizeOfForest_cons, List.length_cons, List.length_append,
        ihChildren, ihRest]
      omega

/-- The text of a forest is that of its elements one after the other. -/
theorem textOfForest_eq_join_contents (ts : List Tree) :
    textOfForest ts = String.join ((subtreesOfForest ts).filterMap content) := by
  induction ts using forestInduction with
  | nil => rfl
  | cons tag operator content children rest ihChildren ihRest =>
      rw [textOfForest_cons, text, ihChildren, ihRest, subtreesOfForest_cons, List.filterMap_cons,
        List.filterMap_append, Tree.content]
      cases content with
      | none => rw [String.join_append, Option.getD_none, String.empty_append]
      | some s => rw [String.join_cons, String.join_append, Option.getD_some, String.append_assoc]

/-- Something holds of every element of a forest, with what is below it. -/
def Everywhere (holds : Tree → Prop) (ts : List Tree) : Prop := ∀ t ∈ subtreesOfForest ts, holds t

section

variable {holds more : Tree → Prop}

theorem everywhere_nil : Everywhere holds [] := nofun

theorem everywhere_cons {tag : Tag} {operator : Option Operator} {content : Option String}
    {children rest : List Tree} :
    Everywhere holds (.node tag operator content children :: rest) ↔
      holds (.node tag operator content children) ∧ Everywhere holds children ∧
        Everywhere holds rest := by
  unfold Everywhere
  rw [subtreesOfForest_cons, List.forall_mem_cons, List.forall_mem_append]

theorem Everywhere.append {a b : List Tree} (ha : Everywhere holds a) (hb : Everywhere holds b) :
    Everywhere holds (a ++ b) := by
  unfold Everywhere
  rw [subtreesOfForest_append]
  exact List.forall_mem_append.2 ⟨ha, hb⟩

theorem Everywhere.mono {ts : List Tree} (h : Everywhere holds ts)
    (himp : ∀ t, holds t → more t) : Everywhere more ts :=
  fun t ht => himp t (h t ht)

end

/-- The tags of a forest, in document order. -/
def tagsOfForest (ts : List Tree) : List Tag := (subtreesOfForest ts).map tag

/-- What is grafted comes last. -/
theorem tagsOfForest_graft {height : Nat} {ts : List Tree} (h : HasSpine height ts)
    (new : List Tree) : tagsOfForest (graft height new ts) = tagsOfForest ts ++ tagsOfForest new := by
  induction h with
  | zero ts => simp [tagsOfForest]
  | @succ height children init tag operator content below ih =>
      unfold tagsOfForest at ih ⊢
      rw [graft_concat]
      simp [ih, Tree.tag]

/-- The element at the root of a tree that is laid out from the index `id`. -/
def elementAt (id : Nat) (t : Tree) : Element where
  tag := t.tag
  operator := t.operator
  text := t.content
  children := rootsFrom (id + 1) t.children

end Tree

namespace Document

open SelectorExplain.Tree

/-- The subtree at a position of a forest stands at that position of what is laid out. -/
theorem Holds.subtree {d : Document} {ts : List Tree} :
    ∀ {start i : Nat} {t : Tree}, d.Holds start ts → (subtreesOfForest ts)[i]? = some t →
      d.get? (start + i) = some (t.elementAt (start + i)) ∧ d.Holds (start + i + 1) t.children := by
  induction ts using forestInduction with
  | nil => intro start i t _ hi; cases hi
  | cons tag operator content children rest ihChildren ihRest =>
      intro start i t h hi
      obtain ⟨hroot, hchildren, hrest⟩ := h.cons
      rw [subtreesOfForest_cons] at hi
      cases i with
      | zero =>
          cases hi
          exact ⟨hroot, hchildren⟩
      | succ i =>
          rw [List.getElem?_cons_succ] at hi
          by_cases hlt : i < sizeOfForest children
          · -- below the first root
            rw [List.getElem?_append_left (by rwa [length_subtreesOfForest])] at hi
            have hbelow := ihChildren hchildren hi
            rwa [Nat.add_right_comm start 1 i] at hbelow
          · rw [List.getElem?_append_right (by rw [length_subtreesOfForest]; omega),
              length_subtreesOfForest] at hi
            have hbehind := ihRest hrest hi
            rwa [show start + (sizeOfForest children + 1) + (i - sizeOfForest children) =
              start + (i + 1) by omega] at hbehind

/-- An element of the document of a forest is the root of the subtree at its index, and its children
    unfold to what is below that root. -/
theorem get?_ofForest_eq_some {ts : List Tree} {id : Nat} {e : Element}
    (h : (ofForest ts).get? id = some e) :
    ∃ t, (subtreesOfForest ts)[id]? = some t ∧ e = t.elementAt id ∧
      e.children.map ((ofForest ts).treeWithin (ofForest ts).size) = t.children.map some := by
  have hid : id < (subtreesOfForest ts).length := by
    obtain ⟨hlt, -⟩ := Array.getElem?_eq_some_iff.1 h
    rw [length_subtreesOfForest, ← size_ofForest]
    exact hlt
  have hsubtree := (holds_ofForest ts).subtree (List.getElem?_eq_getElem hid)
  rw [Nat.zero_add] at hsubtree
  obtain ⟨hget, hholds⟩ := hsubtree
  obtain rfl := Option.some.inj (h.symm.trans hget)
  refine ⟨_, List.getElem?_eq_getElem hid, rfl, hholds.map_treeWithin ?_⟩
  -- what stands in the array is not larger than the array
  obtain ⟨before, after, -, harray⟩ := hholds
  have hlength := congrArg List.length harray
  simp only [List.length_append, length_elementsOfForest, Array.length_toList] at hlength
  rw [size]
  omega

end Document

end SelectorExplain
