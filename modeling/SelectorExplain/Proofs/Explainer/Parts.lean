import SelectorExplain.Proofs.Document.Extension
import SelectorExplain.Proofs.Explainer.Reachable
import SelectorExplain.Proofs.Explainer.Rendering

set_option autoImplicit false

/-! # Walking parts of a selector

Sequences, combinators and simple selectors can be walked on their own, into an explainer that may
have anything open and may have refused calls before. Such a walk is never refused. It adds the
explanation of its node at the insertion point, changes nothing else, and leaves open what was open
(`Gains`). What is spelled afterwards is what was spelled before and then the part, with a separator
between the two where a sequence comes into a group that has begun. -/

namespace SelectorExplain

open SelectorExplain.Tree

namespace Explainer

/-! ## What is gained -/

/-- The explainer afterwards has gained some trees at the insertion point, and nothing else has
    changed. Their text comes behind the text before. -/
structure Gains (x : Explainer) (new : List Tree) (after : Explainer) : Prop where
  document : x.document.ExtendedBy x.insertionPoint new after.document
  cursor : after.cursor = x.cursor
  layout : after.layout = x.layout
  text : after.text = x.text ++ textOfForest new

variable (layout : Layout) {height : Nat} {ts : List Tree}

/-- What is grafted at the height of the cursor is gained. -/
theorem gains_graft (h : HasSpine height ts) (new : List Tree) :
    (ofForest layout height ts).Gains new (ofForest layout height (graft height new ts)) where
  document := by
    rw [insertionPoint_ofForest]
    exact Document.extendedBy_graft h new
  cursor := by rw [ofForest, ofForest, spineFrom_graft h]
  layout := rfl
  text := by rw [text_ofForest, text_ofForest, textOfForest_graft h]

/-! ## Separators -/

/-- New elements come into a group that has children already. -/
def InBegunGroup (x : Explainer) : Prop :=
  ∃ id e, x.insertionPoint = some id ∧ x.document.get? id = some e ∧
    e.tag = .selectorGroup ∧ e.children ≠ []

theorem needsSeparator_iff {x : Explainer} : x.needsSeparator = true ↔ x.InBegunGroup := by
  constructor
  · intro h
    cases helement : x.insertionPoint.bind x.document.get? with
    | none =>
        rw [needsSeparator, helement] at h
        exact absurd h Bool.false_ne_true
    | some e =>
        rw [needsSeparator, helement] at h
        obtain ⟨id, hpoint, hget⟩ := Option.bind_eq_some_iff.1 helement
        exact ⟨id, e, hpoint, hget, by simpa using h⟩
  · rintro ⟨id, e, hpoint, hget, htag, hchildren⟩
    rw [needsSeparator_eq hpoint hget, htag]
    simpa using hchildren

/-- A separator stands before a sequence that comes into a group that has begun. -/
theorem separators_cases (x : Explainer) :
    x.InBegunGroup ∧ x.separators = [.ofText ", "] ∨ ¬x.InBegunGroup ∧ x.separators = [] := by
  by_cases h : x.needsSeparator
  · exact .inl ⟨needsSeparator_iff.1 h, if_pos h⟩
  · exact .inr ⟨fun hgroup => h (needsSeparator_iff.2 hgroup), if_neg h⟩

/-! ## Parts -/

/-- **What walking a part does.** After any calls, sequences, combinators and simple selectors are
    walked without a refusal, and the explainer gains their explanation: its earlier elements and
    what it has open stay, and the text of the part comes last. Before a sequence, and only in a
    group that has begun, it gains a separator. -/
theorem reached_gains_part (start : Layout) (calls : List Call) :
    (∀ s : Sequence, ∃ separators after,
      ((reached start calls).InBegunGroup ∧ separators = [.ofText ", "] ∨
        ¬(reached start calls).InBegunGroup ∧ separators = []) ∧
      (visitor.walkSequence s).run (reached start calls) = (.ok .descend, after) ∧
      (reached start calls).Gains (separators ++ [s.explanation]) after ∧
      after.text = (reached start calls).text ++ (textOfForest separators ++ s.text)) ∧
    (∀ c : Combinator, ∃ after,
      (visitor.walkCombinator c).run (reached start calls) = (.ok .descend, after) ∧
      (reached start calls).Gains [c.kind.explanation c.target.explanation] after ∧
      after.text = (reached start calls).text ++ (c.kind.punctuation ++ c.target.text)) ∧
    (∀ s : Simple, ∃ after,
      (visitor.walkSimple s).run (reached start calls) = (.ok (), after) ∧
      (reached start calls).Gains [s.explanation] after ∧
      after.text = (reached start calls).text ++ s.text) := by
  obtain ⟨layout, height, ts, hspine, hx⟩ := inOrder_reached start calls
  rw [hx]
  refine ⟨fun s => ?_, fun c => ?_, fun s => ?_⟩
  · have hgains := gains_graft layout hspine
      ((ofForest layout height ts).separators ++ [s.explanation])
    refine ⟨_, _, separators_cases _, rendersSequence_walkSequence s layout hspine, hgains, ?_⟩
    rw [hgains.text, textOfForest_append, textOfForest_cons, textOfForest_nil,
      String.append_empty, s.text_explanation]
  · have hgains := gains_graft layout hspine [c.kind.explanation c.target.explanation]
    refine ⟨_, run_walkCombinatorTo layout hspine c (rendersSequence_walkSequence c.target),
      hgains, ?_⟩
    rw [hgains.text, textOfForest_cons, textOfForest_nil, String.append_empty,
      c.kind.text_explanation, c.target.text_explanation]
  · have hgains := gains_graft layout hspine [s.explanation]
    refine ⟨_, run_walkSimple layout hspine s, hgains, ?_⟩
    rw [hgains.text, textOfForest_cons, textOfForest_nil, String.append_empty, s.text_explanation]

end Explainer

end SelectorExplain
