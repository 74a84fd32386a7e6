import SelectorExplain.Proofs.Document.TextLeaves
import SelectorExplain.Selector.Text

set_option autoImplicit false

/-! # Explanation trees

What the document of a selector should look like, by recursion on the selector and without a cursor:
each node has one tree, and the trees of its parts stand below it in the order in which they are
written. `Group.explanation` is the whole document; it has one root.

The texts of these trees stand in leaves of their own (`textLeaves_explanation`) and spell the
selector (`text_explanation`). -/

namespace SelectorExplain

/-! ## The trees -/

/-- An element with a text inside, unless that would be empty. -/
def Tree.labelled (tag : Tag) (content : String) : Tree :=
  .node tag none none (if content = "" then [] else [.ofText content])

/-- What stands below the element of an attribute selector. -/
def Attribute.parts (a : Attribute) : List Tree :=
  [.ofText "[", .labelled .name a.name] ++
    (match a.operator.punctuation, a.literal with
      | some op, some literal =>
        [.labelled .operator op, .ofText "\"", .labelled .value (escapeLiteral literal),
          .ofText "\""]
      | _, _ => []) ++
    [.ofText "]"]

/-- The tree of a simple selector. -/
def Simple.explanation : Simple → Tree
  | universal space => .labelled .universal (qualify space "*")
  | type name space => .labelled .type (qualify space name)
  | id name => .labelled .id ("#" ++ name)
  | className name => .labelled .className ("." ++ name)
  | attr test => .node .attr (some test.operator) none test.parts

/-- The tree of a combinator, given the tree of its right-hand side. -/
def CombinatorKind.explanation (kind : CombinatorKind) (target : Tree) : Tree :=
  .node (.ofCombinator kind) none none [.ofText kind.punctuation, target]

/-- The tree of a sequence. -/
def Sequence.explanation : Sequence → Tree
  | last simples => .node .selector none none (simples.map Simple.explanation)
  | chained simples kind target =>
    .node .selector none none
      (simples.map Simple.explanation ++ [kind.explanation target.explanation])

/-- The tree of a group: those of its sequences, with the separator between each two. -/
def Group.explanation (g : Group) : Tree :=
  .node .selectorGroup none none
    ((g.sequences.map Sequence.explanation).intersperse (.ofText Group.separator))

/-- The punctuation of a combinator is never empty. -/
theorem Tree.labelled_punctuation (tag : Tag) (kind : CombinatorKind) :
    labelled tag kind.punctuation = .node tag none none [.ofText kind.punctuation] := by
  cases kind <;> rfl

/-- Combinators of different kinds have different tags. -/
theorem CombinatorKind.eq_of_tag_eq {a b : CombinatorKind}
    (h : Tag.ofCombinator a = Tag.ofCombinator b) : a = b := by
  cases a <;> cases b <;> first | rfl | cases h

/-! ## Where their texts stand -/

namespace Tree

/-- What stands inside a labelled element. -/
theorem textLeaves_content (content : String) :
    TextLeaves (if content = "" then [] else [.ofText content]) := by
  split
  · exact .nil
  · next hne => exact textLeaves_text hne

theorem textLeaves_labelled {tag : Tag} (htag : tag ≠ .text) (content : String) :
    TextLeaves [labelled tag content] :=
  textLeaves_element htag none (textLeaves_content content)

end Tree

open SelectorExplain.Tree in
theorem Attribute.textLeaves_parts (a : Attribute) : TextLeaves a.parts := by
  have hname : TextLeaves [.ofText "[", labelled .name a.name] :=
    .text (by decide) (textLeaves_labelled (by decide) _)
  unfold parts
  refine (hname.append ?_).append (textLeaves_text (by decide))
  split
  · next op literal _ _ =>
      have hvalue : TextLeaves [labelled .value (escapeLiteral literal), .ofText "\""] :=
        (textLeaves_labelled (by decide) _).append (textLeaves_text (by decide))
      exact (textLeaves_labelled (by decide) op).append (.text (by decide) hvalue)
  · exact .nil

open SelectorExplain.Tree in
theorem Simple.textLeaves_explanation (s : Simple) : TextLeaves [s.explanation] := by
  cases s with
  | universal space => exact textLeaves_labelled (by decide) _
  | type name space => exact textLeaves_labelled (by decide) _
  | id name => exact textLeaves_labelled (by decide) _
  | className name => exact textLeaves_labelled (by decide) _
  | attr test => exact textLeaves_element (by decide) _ test.textLeaves_parts

namespace Tree

theorem textLeaves_of_forall {ts : List Tree} (h : ∀ t ∈ ts, TextLeaves [t]) : TextLeaves ts := by
  induction ts with
  | nil => exact .nil
  | cons t ts ih =>
      rw [List.forall_mem_cons] at h
      exact h.1.append (ih h.2)

theorem textLeaves_intersperse {separator : String} (hseparator : separator ≠ "") {ts : List Tree}
    (h : ∀ t ∈ ts, TextLeaves [t]) : TextLeaves (ts.intersperse (.ofText separator)) := by
  induction ts with
  | nil => exact .nil
  | cons t ts ih =>
      rw [List.forall_mem_cons] at h
      cases ts with
      | nil => exact h.1
      | cons u ts => exact h.1.append (.text hseparator (ih h.2))

end Tree

open SelectorExplain.Tree in
theorem Sequence.textLeaves_explanation (s : Sequence) : TextLeaves [s.explanation] := by
  have hsimples (simples : List Simple) : TextLeaves (simples.map Simple.explanation) := by
    refine textLeaves_of_forall fun t ht => ?_
    obtain ⟨s, -, rfl⟩ := List.mem_map.1 ht
    exact s.textLeaves_explanation
  induction s with
  | last simples => exact textLeaves_element (by decide) none (hsimples simples)
  | chained simples kind target ih =>
      have hkind : Tag.ofCombinator kind ≠ .text := by cases kind <;> decide
      have hpunctuation : kind.punctuation ≠ "" := by cases kind <;> decide
      have hcombinator : TextLeaves [kind.explanation target.explanation] :=
        textLeaves_element hkind none (.text hpunctuation ih)
      exact textLeaves_element (by decide) none ((hsimples simples).append hcombinator)

open SelectorExplain.Tree in
theorem Group.textLeaves_explanation (g : Group) : TextLeaves [g.explanation] := by
  refine textLeaves_element (by decide) none (textLeaves_intersperse (by decide) fun t ht => ?_)
  obtain ⟨s, -, rfl⟩ := List.mem_map.1 ht
  exact s.textLeaves_explanation

/-! ## Their texts -/

namespace Tree

@[simp] theorem text_labelled (tag : Tag) (content : String) :
    (labelled tag content).text = content := by
  by_cases hcontent : content = ""
  · simp [labelled, text, hcontent]
  · simp [labelled, text, hcontent]

theorem textOfForest_map {α : Type} (f : α → Tree) (items : List α) :
    textOfForest (items.map f) = String.join (items.map fun a => (f a).text) := by
  induction items with
  | nil => rfl
  | cons a items ih => rw [List.map_cons, textOfForest_cons, ih, List.map_cons, String.join_cons]

theorem textOfForest_intersperse (separator : String) (ts : List Tree) :
    textOfForest (ts.intersperse (.ofText separator)) = separator.intercalate (ts.map text) := by
  induction ts with
  | nil => rfl
  | cons t rest ih =>
      cases rest with
      | nil => simp
      | cons next rest =>
          rw [List.intersperse_cons_cons, textOfForest_cons, textOfForest_cons, ih, text_ofText]
          simp [String.append_assoc]

end Tree

theorem Attribute.textOfForest_parts (a : Attribute) : Tree.textOfForest a.parts = a.text := by
  unfold parts text
  cases a.operator.punctuation with
  | none => simp [String.append_assoc]
  | some op =>
      cases a.literal with
      | none => simp [String.append_assoc]
      | some literal => simp [String.append_assoc]

theorem Simple.text_explanation (s : Simple) : s.explanation.text = s.text := by
  cases s with
  | universal space => exact Tree.text_labelled _ _
  | type name space => exact Tree.text_labelled _ _
  | id name => exact Tree.text_labelled _ _
  | className name => exact Tree.text_labelled _ _
  | attr test =>
      rw [explanation, Tree.text, test.textOfForest_parts]
      exact String.empty_append

theorem CombinatorKind.text_explanation (kind : CombinatorKind) (target : Tree) :
    (kind.explanation target).text = kind.punctuation ++ target.text := by
  simp [explanation, Tree.text]

theorem Sequence.text_explanation (s : Sequence) : s.explanation.text = s.text := by
  induction s with
  | last simples =>
      rw [explanation, Tree.text, Tree.textOfForest_map]
      simp [text, Simple.text_explanation]
  | chained simples kind target ih =>
      rw [explanation, Tree.text, Tree.textOfForest_append, Tree.textOfForest_map]
      simp [text, Simple.text_explanation, kind.text_explanation, ih, String.append_assoc]

/-- The texts of the explanation of a group spell the group. -/
theorem Group.text_explanation (g : Group) : g.explanation.text = g.text := by
  rw [explanation, Tree.text, Tree.textOfForest_intersperse, List.map_map]
  simp [text, Function.comp_def, Sequence.text_explanation]

end SelectorExplain
