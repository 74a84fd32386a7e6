import SelectorExplain.Proofs.Document.Preorder

set_option autoImplicit false

/-! # Growing a document along its rightmost path

The rightmost path of a forest goes from its last root to that one's last child, and so on. A forest
that grows only below elements of this path stays in document order: the new elements come last.

`Tree.graft height new` adds trees below the element at a given height of the path (or to the roots,
at height 0), and `Tree.spineFrom` lists the indices down to there. The main statement is that
grafting a leaf is what `Document.push` does to the document of a forest when the parent is the last
of these indices (`push_ofForest`). -/

namespace SelectorExplain

namespace Tree

/-! ## The rightmost path -/

/-- The rightmost path of a forest has at least `height` elements. -/
inductive HasSpine : (height : Nat) → List Tree → Prop
  | zero (ts : List Tree) : HasSpine 0 ts
  | succ {height : Nat} {children : List Tree} (init : List Tree) (tag : Tag)
      (operator : Option Operator) (text : Option String) (below : HasSpine height children) :
      HasSpine (height + 1) (init ++ [.node tag operator text children])

/-- The indices of the first `height` elements of the rightmost path, in a forest that is laid out
    from `start`. -/
def spineFrom : (start height : Nat) → List Tree → List Nat
  | _, 0, _ => []
  | start, height + 1, ts =>
    match ts.getLast? with
    | none => []
    | some (.node _ _ _ children) =>
      (start + sizeOfForest ts.dropLast) ::
        spineFrom (start + sizeOfForest ts.dropLast + 1) height children

/-- Adds trees at the end of the children of the element at `height` of the rightmost path, or at
    the end of the roots. -/
def graft : (height : Nat) → (new : List Tree) → List Tree → List Tree
  | 0, new, ts => ts ++ new
  | height + 1, new, ts =>
    match ts.getLast? with
    | none => []
    | some (.node tag operator text children) =>
      ts.dropLast ++ [.node tag operator text (graft height new children)]

variable {tag : Tag} {operator : Option Operator} {text : Option String}

@[simp] theorem graft_zero (new ts : List Tree) : graft 0 new ts = ts ++ new := rfl

@[simp] theorem graft_concat (height : Nat) (new init children : List Tree) :
    graft (height + 1) new (init ++ [.node tag operator text children]) =
      init ++ [.node tag operator text (graft height new children)] := by
  simp [graft]

@[simp] theorem spineFrom_zero (start : Nat) (ts : List Tree) : spineFrom start 0 ts = [] := rfl

@[simp] theorem spineFrom_concat (start height : Nat) (init children : List Tree) :
    spineFrom start (height + 1) (init ++ [.node tag operator text children]) =
      (start + sizeOfForest init) :: spineFrom (start + sizeOfForest init + 1) height children := by
  simp [spineFrom]

theorem sizeOfForest_concat (init children : List Tree) :
    sizeOfForest (init ++ [.node tag operator text children]) =
      sizeOfForest init + 1 + sizeOfForest children := by
  rw [sizeOfForest_append, sizeOfForest_cons, sizeOfForest_nil]
  omega

/-- Where the children of the last root end, the forest ends. -/
theorem add_sizeOfForest_concat (start : Nat) (init children : List Tree) :
    start + sizeOfForest init + 1 + sizeOfForest children =
      start + sizeOfForest (init ++ [.node tag operator text children]) := by
  rw [sizeOfForest_concat]
  omega

theorem elementsOfForest_concat (start : Nat) (init children : List Tree) :
    elementsOfForest start (init ++ [.node tag operator text children]) =
      elementsOfForest start init ++
        { tag, operator, text, children := rootsFrom (start + sizeOfForest init + 1) children } ::
          elementsOfForest (start + sizeOfForest init + 1) children := by
  rw [elementsOfForest_append, elementsOfForest_cons, elementsOfForest, List.append_nil]

theorem HasSpine.of_succ {height : Nat} {ts : List Tree} (h : HasSpine (height + 1) ts) :
    HasSpine height ts := by
  induction height generalizing ts with
  | zero => exact .zero ts
  | succ height ih =>
      cases h with
      | succ init tag operator text below => exact .succ init tag operator text (ih below)

theorem HasSpine.ne_nil {height : Nat} {ts : List Tree} (h : HasSpine (height + 1) ts) :
    ts ≠ [] := by
  cases h
  simp

/-- Nothing can be open in an empty document. -/
theorem HasSpine.eq_zero {height : Nat} (h : HasSpine height []) : height = 0 := by
  cases height with
  | zero => rfl
  | succ height => exact absurd rfl h.ne_nil

theorem isEmpty_ofForest {ts : List Tree} : (Document.ofForest ts).isEmpty = true ↔ ts = [] := by
  cases ts with
  | nil => exact iff_of_true rfl rfl
  | cons t rest => exact iff_of_false Bool.false_ne_true nofun

/-! ## What grafting keeps -/

theorem graft_nil {height : Nat} {ts : List Tree} (h : HasSpine height ts) :
    graft height [] ts = ts := by
  induction h with
  | zero ts => simp
  | succ init tag operator text below ih => rw [graft_concat, ih]

theorem graft_graft (height : Nat) (a b ts : List Tree) (h : HasSpine height ts) :
    graft height b (graft height a ts) = graft height (a ++ b) ts := by
  induction h with
  | zero ts => simp
  | succ init tag operator text below ih => simp [ih]

/-- Grafting below a tree that has been grafted. -/
theorem graft_succ_graft {height : Nat} {ts : List Tree} (h : HasSpine height ts)
    (new children : List Tree) :
    graft (height + 1) new (graft height [.node tag operator text children] ts) =
      graft height [.node tag operator text (children ++ new)] ts := by
  induction h with
  | zero ts => simp
  | succ init tag operator text below ih => simp [ih]

theorem HasSpine.graft {height : Nat} {ts : List Tree} (h : HasSpine height ts)
    (new : List Tree) : HasSpine height (graft height new ts) := by
  induction h with
  | zero ts => exact .zero _
  | succ init tag operator text below ih =>
      rw [graft_concat]
      exact .succ init tag operator text ih

/-- The path can be continued into a tree that has been grafted. -/
theorem HasSpine.graft_succ {height : Nat} {ts : List Tree} (h : HasSpine height ts) (t : Tree) :
    HasSpine (height + 1) (Tree.graft height [t] ts) := by
  obtain ⟨tag, operator, text, children⟩ := t
  induction h with
  | zero ts => exact .succ _ _ _ _ (.zero children)
  | succ init tag' operator' text' below ih =>
      rw [graft_concat]
      exact .succ _ _ _ _ ih

theorem spineFrom_graft {height : Nat} {ts : List Tree} (h : HasSpine height ts)
    (new : List Tree) (start : Nat) :
    spineFrom start height (graft height new ts) = spineFrom start height ts := by
  induction h generalizing start with
  | zero ts => rfl
  | succ init tag operator text below ih =>
      rw [graft_concat, spineFrom_concat, spineFrom_concat, ih]

theorem spineFrom_graft_succ {height : Nat} {ts : List Tree} (h : HasSpine height ts) (t : Tree)
    (start : Nat) :
    spineFrom start (height + 1) (graft height [t] ts) =
      spineFrom start height ts ++ [start + sizeOfForest ts] := by
  obtain ⟨tag, operator, text, children⟩ := t
  induction h generalizing start with
  | zero ts => rw [graft_zero, spineFrom_concat, spineFrom_zero, spineFrom_zero, List.nil_append]
  | succ init tag' operator' text' below ih =>
      rw [graft_concat, spineFrom_concat, spineFrom_concat, ih, sizeOfForest_concat]
      simp only [List.cons_append, List.cons.injEq, List.append_cancel_left_eq, true_and, and_true]
      omega

/-- Leaving the innermost element of the path. -/
theorem dropLast_spineFrom {height : Nat} {ts : List Tree} (h : HasSpine (height + 1) ts)
    (start : Nat) :
    (spineFrom start (height + 1) ts).dropLast = spineFrom start height ts := by
  induction height generalizing ts start with
  | zero =>
      cases h with
      | succ init tag operator text below => rw [spineFrom_concat]; rfl
  | succ height ih =>
      cases h with
      | succ init tag operator text below =>
          rw [spineFrom_concat, spineFrom_concat, ← ih below]
          cases below with
          | succ init' tag' operator' text' below' =>
              rw [spineFrom_concat, List.dropLast_cons_cons]

theorem lt_of_mem_spineFrom {height : Nat} :
    ∀ {ts : List Tree} {start : Nat}, HasSpine height ts →
      ∀ id ∈ spineFrom start height ts, id < start + sizeOfForest ts := by
  induction height with
  | zero => intro ts start _ id hid; simp at hid
  | succ height ih =>
      intro ts start h id hid
      cases h with
      | @succ _ children init tag operator text below =>
          rw [spineFrom_concat, List.mem_cons] at hid
          rw [← add_sizeOfForest_concat]
          rcases hid with rfl | hid
          · omega
          · exact ih below id hid

/-! ## What grafting does to the array -/

@[simp] theorem rootsFrom_concat (start : Nat) (init children : List Tree) :
    rootsFrom start (init ++ [.node tag operator text children]) =
      rootsFrom start init ++ [start + sizeOfForest init] := by
  rw [rootsFrom_append]
  rfl

/-- A change behind the elements of a forest does not touch them. -/
theorem modify_behind (start : Nat) (ts : List Tree) (behind : List Element) (i : Nat)
    (f : Element → Element) :
    (elementsOfForest start ts ++ behind).modify (sizeOfForest ts + i) f =
      elementsOfForest start ts ++ behind.modify i f := by
  rw [← length_elementsOfForest ts start]
  induction elementsOfForest start ts with
  | nil => simp
  | cons e before ih =>
      rw [List.length_cons, Nat.succ_add, List.cons_append, List.modify_succ_cons, ih,
        List.cons_append]

/-- A change of one of the elements of a forest does not touch what is behind them. -/
theorem modify_within (elements behind : List Element) {i : Nat} (hi : i < elements.length)
    (f : Element → Element) :
    (elements ++ behind).modify i f = elements.modify i f ++ behind := by
  induction elements generalizing i with
  | nil => exact absurd hi (Nat.not_lt_zero i)
  | cons e rest ih =>
      cases i with
      | zero => rfl
      | succ i =>
          rw [List.cons_append, List.modify_succ_cons, List.modify_succ_cons,
            ih (Nat.lt_of_succ_lt_succ hi), List.cons_append]

/-- Below the rightmost path new elements come last in document order, and of the earlier elements
    only the last of the path changes: it gets the new roots as its last children. -/
theorem elementsOfForest_graft {height : Nat} :
    ∀ {ts : List Tree} (start : Nat), HasSpine (height + 1) ts →
      ∃ offset, (spineFrom start (height + 1) ts).getLast? = some (start + offset) ∧
        offset < sizeOfForest ts ∧ ∀ new,
          rootsFrom start (graft (height + 1) new ts) = rootsFrom start ts ∧
          elementsOfForest start (graft (height + 1) new ts) =
            (elementsOfForest start ts).modify offset (fun e =>
              { e with children := e.children ++ rootsFrom (start + sizeOfForest ts) new }) ++
              elementsOfForest (start + sizeOfForest ts) new := by
  induction height with
  | zero =>
      intro ts start h
      cases h with
      | @succ _ children init tag operator text below =>
          -- the last root itself gets the new children
          refine ⟨sizeOfForest init + 0, by simp, by rw [sizeOfForest_concat]; omega,
            fun new => ?_⟩
          rw [graft_concat, graft_zero, rootsFrom_concat, rootsFrom_concat,
            elementsOfForest_concat, elementsOfForest_concat, modify_behind, List.modify_zero_cons,
            rootsFrom_append, elementsOfForest_append, ← add_sizeOfForest_concat]
          simp
  | succ height ih =>
      intro ts start h
      cases h with
      | @succ _ children init tag operator text below =>
          -- the change is below the last root, behind the root itself
          obtain ⟨offset, hlast, hoffset, hgraft⟩ := ih (start + sizeOfForest init + 1) below
          refine ⟨sizeOfForest init + (offset + 1), ?_, by rw [sizeOfForest_concat]; omega,
            fun new => ?_⟩
          · rw [spineFrom_concat, List.getLast?_cons, hlast]
            simp only [Option.getD_some, Option.some.injEq]
            omega
          obtain ⟨hroots, helements⟩ := hgraft new
          rw [graft_concat, rootsFrom_concat, rootsFrom_concat, elementsOfForest_concat,
            elementsOfForest_concat, modify_behind, List.modify_succ_cons, hroots, helements,
            ← add_sizeOfForest_concat]
          simp

end Tree

/-! ## Documents -/

namespace Document

open SelectorExplain.Tree

/-- **Pushing is grafting.** A leaf pushed below the last element of the rightmost path, down to
    some height, is a leaf grafted there. -/
theorem push_ofForest {height : Nat} {ts : List Tree} (h : HasSpine height ts) (tag : Tag)
    (operator : Option Operator) (text : Option String) :
    (ofForest ts).push (spineFrom 0 height ts).getLast? { tag, operator, text } =
      ofForest (graft height [.node tag operator text []] ts) := by
  cases height with
  | zero =>
      -- with nothing open the leaf becomes a root
      simp [push, ofForest, rootsFrom_append, elementsOfForest_append, size, rootsFrom,
        elementsOfForest, elementsFrom]
  | succ height =>
      obtain ⟨offset, hlast, hoffset, hgraft⟩ := elementsOfForest_graft 0 h
      obtain ⟨hroots, helements⟩ := hgraft [.node tag operator text []]
      rw [Nat.zero_add] at hlast
      rw [hlast, push, size_ofForest]
      simp only [ofForest, hroots, helements, Document.mk.injEq, and_true, List.push_toArray,
        List.modify_toArray]
      rw [modify_within _ _ (by rwa [length_elementsOfForest]), Nat.zero_add]
      rfl

/-! ## The rightmost path of a document -/

/-- The indices of a path that starts below `parent` (or at the roots) and goes to the last child
    each time. -/
def Rightmost (d : Document) : (parent : Option Nat) → List Nat → Prop
  | _, [] => True
  | parent, id :: path => (d.childrenOf parent).getLast? = some id ∧ d.Rightmost (some id) path

theorem Holds.append {d : Document} {start : Nat} {a b : List Tree}
    (h : d.Holds start (a ++ b)) : d.Holds (start + sizeOfForest a) b := by
  obtain ⟨before, after, rfl, harray⟩ := h
  refine ⟨before ++ elementsOfForest before.length a, after, by simp, ?_⟩
  rw [harray, elementsOfForest_append]
  simp

/-- What has been grafted stands at the end of the array. -/
theorem holds_graft {height : Nat} {ts : List Tree} (h : HasSpine height ts) (new : List Tree) :
    (ofForest (graft height new ts)).Holds (sizeOfForest ts) new := by
  cases height with
  | zero =>
      refine ⟨elementsOfForest 0 ts, [], by simp, ?_⟩
      simp [ofForest, elementsOfForest_append]
  | succ height =>
      obtain ⟨offset, -, -, hgraft⟩ := elementsOfForest_graft 0 h
      refine ⟨_, [], ?_, by rw [ofForest, (hgraft new).2, Nat.zero_add, List.append_nil]⟩
      simp

theorem Holds.rightmost_spineFrom {d : Document} {height : Nat} :
    ∀ {ts : List Tree} {start : Nat} {parent : Option Nat}, Tree.HasSpine height ts →
      d.Holds start ts → d.childrenOf parent = Tree.rootsFrom start ts →
      d.Rightmost parent (Tree.spineFrom start height ts) := by
  induction height with
  | zero => intros; trivial
  | succ height ih =>
      intro ts start parent hspine hholds hparent
      cases hspine with
      | @succ _ children init tag operator text below =>
          obtain ⟨hroot, hchildren, -⟩ := hholds.append.cons
          rw [spineFrom_concat]
          refine ⟨?_, ih below hchildren ?_⟩
          · rw [hparent, rootsFrom_concat, List.getLast?_concat]
          · rw [childrenOf, hroot]
            rfl

/-- The first elements of the rightmost path of a forest are such a path in its document. -/
theorem rightmost_spineFrom {height : Nat} {ts : List Tree} (h : HasSpine height ts) :
    (ofForest ts).Rightmost none (spineFrom 0 height ts) :=
  (holds_ofForest ts).rightmost_spineFrom h rfl

end Document

end SelectorExplain
