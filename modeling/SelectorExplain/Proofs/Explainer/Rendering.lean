import SelectorExplain.Proofs.Explainer.InOrder
import SelectorExplain.Proofs.Visitor.Trace

set_option autoImplicit false

/-! # What a walk renders

A walk of the explainer grafts the explanation of its node at the cursor and leaves the cursor where
it was. That is shown for any explainer in order, with any elements open, so that the walk of a part
can be used inside that of the whole; for a sequence it is an induction along the chain. From a
cleared explainer, `walk` then builds the explanation of the group and nothing else. -/

namespace SelectorExplain

open SelectorExplain.Tree

namespace Visitor

variable {σ ε : Type}

/-- Going into a node, through it and out again. -/
theorem run_around {enter inside : Handler σ ε Flow} {leave : Handler σ ε Unit}
    {before entered walked after : σ} (henter : enter.run before = (.ok .descend, entered))
    (hinside : inside.run entered = (.ok .descend, walked))
    (hleave : leave.run walked = (.ok (), after)) :
    (around enter inside leave).run before = (.ok .descend, after) := by
  unfold around
  rw [Handler.run_bind_ok henter]
  show (inside >>= _).run entered = _
  rw [Handler.run_bind_ok hinside]
  show (leave >>= _).run walked = _
  rw [Handler.run_bind_ok hleave]
  rfl

end Visitor

namespace Explainer

variable (layout : Layout) {height : Nat} {ts : List Tree}

/-! ## Simple selectors -/

theorem run_walkSimple (h : HasSpine height ts) (s : Simple) :
    (visitor.walkSimple s).run (ofForest layout height ts) =
      (.ok (), ofForest layout height (graft height [s.explanation] ts)) :=
  run_visitSimple layout h s

theorem run_walkSimples (h : HasSpine height ts) (simples : List Simple) :
    (visitor.walkSimples simples).run (ofForest layout height ts) =
      (.ok (), ofForest layout height (graft height (simples.map Simple.explanation) ts)) := by
  induction simples generalizing ts with
  | nil =>
      rw [List.map_nil, graft_nil h]
      rfl
  | cons s simples ih =>
      rw [Visitor.walkSimples, Handler.run_bind_ok (run_walkSimple layout h s), ih (h.graft _),
        graft_graft height _ _ ts h]
      rfl

/-! ## Chains -/

/-- A node is entered by opening its element and left by closing it; what is grafted in between
    comes to stand below it. -/
theorem run_node (h : HasSpine height ts) {enter inside : Handler Explainer ExplainError Flow}
    {x : Explainer} {tag : Tag} {before inner : List Tree}
    (henter : enter.run x =
      (.ok .descend, ofForest layout (height + 1) (graft height [.node tag none none before] ts)))
    (hinside : inside.run
        (ofForest layout (height + 1) (graft height [.node tag none none before] ts)) =
      (.ok .descend, ofForest layout (height + 1)
        (graft (height + 1) inner (graft height [.node tag none none before] ts))))
    (kind : NodeKind) :
    (Visitor.around enter inside (close kind)).run x =
      (.ok .descend,
        ofForest layout height (graft height [.node tag none none (before ++ inner)] ts)) := by
  rw [Visitor.run_around henter hinside (close_ofForest layout ((h.graft_succ _).graft _) kind),
    graft_succ_graft h]

/-- A walk that grafts the explanation of a sequence, behind a separator where one is needed. -/
def RendersSequence (walk : Handler Explainer ExplainError Flow) (s : Sequence) : Prop :=
  ∀ (layout : Layout) {height : Nat} {ts : List Tree}, HasSpine height ts →
    walk.run (ofForest layout height ts) =
      (.ok .descend, ofForest layout height
        (graft height ((ofForest layout height ts).separators ++ [s.explanation]) ts))

/-- No separator is needed behind the punctuation of a combinator. -/
theorem run_walkCombinatorTo (h : HasSpine height ts) (c : Combinator)
    {walk : Handler Explainer ExplainError Flow} (hwalk : RendersSequence walk c.target) :
    (visitor.walkCombinatorTo c walk).run (ofForest layout height ts) =
      (.ok .descend, ofForest layout height
        (graft height [c.kind.explanation c.target.explanation] ts)) := by
  have henter := run_enter layout h (.ofCombinator c.kind) c.kind.punctuation
  rw [labelled_punctuation] at henter
  -- what is open is a combinator's element, and that is no group
  have hseparators : (ofForest layout (height + 1) (graft height
      [.node (.ofCombinator c.kind) none none [.ofText c.kind.punctuation]] ts)).separators =
      [] := by
    rw [separators, needsSeparator_ofForest layout h]
    cases c.kind <;> rfl
  have hinside := hwalk layout (h.graft_succ
    (.node (.ofCombinator c.kind) none none [.ofText c.kind.punctuation]))
  rw [hseparators] at hinside
  exact run_node layout h henter hinside _

theorem rendersSequence_walkSequence (s : Sequence) :
    RendersSequence (visitor.walkSequence s) s := by
  induction s with
  | last simples =>
      intro layout height ts h
      have hentered := h.graft (ofForest layout height ts).separators
      have hopened := hentered.graft_succ (.node .selector none none [])
      have hsimples := run_walkSimples layout hopened simples
      have hnode := run_node layout hentered (run_enterSequence layout h)
        (Handler.run_bind_ok hsimples fun _ => pure Flow.descend) .sequence
      rw [graft_graft height _ _ _ h] at hnode
      exact hnode
  | chained simples kind target ih =>
      intro layout height ts h
      have hentered := h.graft (ofForest layout height ts).separators
      have hopened := hentered.graft_succ (.node .selector none none [])
      have hsimples := run_walkSimples layout hopened simples
      -- the combinator is walked where the simple selectors have been grafted
      have hcombinator := run_walkCombinatorTo layout
        (hopened.graft (simples.map Simple.explanation)) ⟨kind, target⟩ ih
      rw [← Handler.run_bind_ok hsimples fun _ => visitor.walkCombinatorTo ⟨kind, target⟩ _,
        graft_graft _ _ _ _ hopened] at hcombinator
      have hnode := run_node layout hentered (run_enterSequence layout h) hcombinator .sequence
      rw [graft_graft height _ _ _ h] at hnode
      exact hnode

/-! ## Groups -/

theorem intersperse_cons {α : Type} (separator a : α) (items : List α) :
    (a :: items).intersperse separator = a :: items.flatMap fun b => [separator, b] := by
  induction items generalizing a with
  | nil => rfl
  | cons b items ih => rw [List.intersperse_cons_cons, ih, List.flatMap_cons]; rfl

/-- Behind the first sequence of a group each further one comes with its separator. -/
theorem run_walkSequences_behind (h : HasSpine height ts) (sequences : List Sequence) :
    ∀ {children : List Tree}, children ≠ [] →
      (visitor.walkSequences sequences).run (ofForest layout (height + 1)
          (graft height [.node .selectorGroup none none children] ts)) =
        (.ok .descend, ofForest layout (height + 1) (graft (height + 1)
          ((sequences.map Sequence.explanation).flatMap fun t => [.ofText Group.separator, t])
          (graft height [.node .selectorGroup none none children] ts))) := by
  induction sequences with
  | nil =>
      intro children _
      rw [List.map_nil, List.flatMap_nil, graft_nil (h.graft_succ _)]
      rfl
  | cons s sequences ih =>
      intro children hchildren
      have hopened := h.graft_succ (.node .selectorGroup none none children)
      have hseparators : (ofForest layout (height + 1)
          (graft height [.node .selectorGroup none none children] ts)).separators =
          [.ofText Group.separator] := by
        rw [separators, needsSeparator_ofForest layout h]
        cases children with
        | nil => exact absurd rfl hchildren
        | cons t children => rfl
      have hwalk := rendersSequence_walkSequence s layout hopened
      -- the group has children again, so that the induction hypothesis applies to the rest
      rw [hseparators, List.singleton_append, graft_succ_graft h] at hwalk
      rw [Visitor.walkSequences, Handler.run_bind_ok hwalk]
      show (visitor.walkSequences sequences).run _ = _
      rw [ih (by simp), graft_succ_graft h, graft_succ_graft h, List.map_cons, List.flatMap_cons,
        List.append_assoc]

theorem run_walkSequences (h : HasSpine height ts) (sequences : List Sequence) :
    (visitor.walkSequences sequences).run
        (ofForest layout (height + 1) (graft height [.node .selectorGroup none none []] ts)) =
      (.ok .descend, ofForest layout (height + 1) (graft (height + 1)
        ((sequences.map Sequence.explanation).intersperse (.ofText Group.separator))
        (graft height [.node .selectorGroup none none []] ts))) := by
  have hopened := h.graft_succ (.node .selectorGroup none none [])
  cases sequences with
  | nil =>
      rw [List.map_nil, List.intersperse_nil, graft_nil hopened]
      rfl
  | cons s sequences =>
      have hseparators : (ofForest layout (height + 1)
          (graft height [.node .selectorGroup none none []] ts)).separators = [] := by
        rw [separators, needsSeparator_ofForest layout h]
        rfl
      have hwalk := rendersSequence_walkSequence s layout hopened
      rw [hseparators, List.nil_append, graft_succ_graft h] at hwalk
      rw [Visitor.walkSequences, Handler.run_bind_ok hwalk]
      show (visitor.walkSequences sequences).run _ = _
      rw [run_walkSequences_behind layout h sequences (by simp), graft_succ_graft h,
        graft_succ_graft h, List.map_cons, intersperse_cons]
      rfl

/-- The walk of a group from an explainer that holds nothing. -/
theorem run_walkGroup_empty (g : Group) :
    (visitor.walkGroup g).run (ofForest layout 0 []) =
      (.ok .descend, ofForest layout 0 [g.explanation]) :=
  run_node layout (.zero []) (run_enterGroup_empty layout)
    (run_walkSequences layout (.zero []) g.sequences) .group

theorem run_walk_empty (g : Group) :
    (visitor.walk g).run (ofForest layout 0 []) = (.ok (), ofForest layout 0 [g.explanation]) := by
  rw [Visitor.walk, Handler.run_bind_ok (run_walkGroup_empty layout g)]
  rfl

/-- **What a walk renders.** Whatever an explainer holds and has open, clearing it and walking a
    group succeeds, closes every element it opens, and leaves the explanation of the group as the
    whole document. -/
theorem walk_clear (x : Explainer) (g : Group) :
    (visitor.walk g).run x.clear =
        (.ok (), { document := .ofForest [g.explanation], cursor := [], layout := x.layout }) ∧
      (Document.ofForest [g.explanation]).forest = [g.explanation] := by
  refine ⟨?_, Document.forest_ofForest _⟩
  rw [clear_eq_ofForest, run_walk_empty]
  rfl

end Explainer

/-! ## Explaining a group -/

theorem Group.explainWith_eq (g : Group) (layout : Layout) :
    g.explainWith layout = .ok (.ofForest layout 0 [g.explanation]) := by
  have hempty : ({ layout } : Explainer) = .ofForest layout 0 [] := rfl
  rw [explainWith, hempty, Explainer.run_walk_empty]

theorem Explainer.text_ofForest (layout : Layout) (height : Nat) (ts : List Tree) :
    (ofForest layout height ts).text = textOfForest ts := by
  rw [text, ofForest, Document.text, Document.forest_ofForest]

/-- The explanation of a group spells the group. -/
theorem Explainer.text_explanation (layout : Layout) (height : Nat) (g : Group) :
    (ofForest layout height [g.explanation]).text = g.text := by
  rw [text_ofForest, textOfForest_cons, textOfForest_nil, String.append_empty, g.text_explanation]

theorem Group.text_explain (g : Group) :
    g.explain.map Explainer.text = .ok g.text := by
  rw [explain, explainWith_eq]
  exact congrArg Except.ok (Explainer.text_explanation {} 0 g)

example : (Group.mk [.chained [.type "a" none] .child (.last [.className "b"]),
    .last [.id "c"]]).explain.map Explainer.text = .ok "a > .b, #c" := by decide

end SelectorExplain
