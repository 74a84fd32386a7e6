import SelectorExplain.Proofs.Explainer.Checked

set_option autoImplicit false

/-! # Explainers that can be reached

An explainer can be used in any way: cleared, walked over groups and over parts of them, and its
handlers called from outside, with any nodes, in any order, balanced or not, whether a call before
has failed or not. All of this comes down to a few steps, and what these keep holds of every
explainer that can be reached (`Kept.reached`). Where something holds only as long as the simple
selectors that are visited are fine, that too is seen step by step (`KeptFor`). Each step adds
elements at the cursor, opens the element it has added last, or closes the innermost one, which
keeps the document in order (`inOrder_kept`) and its texts apart (`openSpine_grows`).

So the document of every explainer that can be reached is in document order, and no append is ever
refused. -/

namespace SelectorExplain

open SelectorExplain.Tree

/-! ## Calls from outside -/

/-- Something that can be done with an explainer: clearing it, calling one of its handlers, or
    walking a node of any kind. -/
inductive Call where
  | clear
  /-- A concrete handler. -/
  | event (e : Event)
  | enterCombinator (c : Combinator)
  | leaveCombinator (c : Combinator)
  | visitSimple (n : Node)
  | enterNode (n : Node)
  | leaveNode (n : Node)
  | visitNode (n : Node)
  | walk (g : Group)
  | walkGroup (g : Group)
  | walkSequence (s : Sequence)
  | walkCombinator (c : Combinator)
  | walkSimple (s : Simple)
  deriving DecidableEq, Repr

/-- Does a call with the handlers of a visitor. What has nothing to decide answers `descend` when it
    succeeds. -/
def Visitor.perform {ε : Type} (v : Visitor Explainer ε) : Call → Handler Explainer ε Flow
  | .clear => do
    modify Explainer.clear
    return .descend
  | .event e => v.call e
  | .enterCombinator c => v.onEnterCombinator c
  | .leaveCombinator c => do
    v.onLeaveCombinator c
    return .descend
  | .visitSimple n => do
    v.onVisitSimple n
    return .descend
  | .enterNode n => v.onEnterNode n
  | .leaveNode n => do
    v.onLeaveNode n
    return .descend
  | .visitNode n => do
    v.onVisitNode n
    return .descend
  | .walk g => do
    v.walk g
    return .descend
  | .walkGroup g => v.walkGroup g
  | .walkSequence s => v.walkSequence s
  | .walkCombinator c => v.walkCombinator c
  | .walkSimple s => do
    v.walkSimple s
    return .descend

namespace Explainer

/-- The explainer after a call, whether the call has succeeded or not. -/
def after (x : Explainer) (c : Call) : Explainer := ((visitor.perform c).run x).2

/-- The explainer that a new one with a given layout has become after some calls. -/
def reached (layout : Layout) (calls : List Call) : Explainer := calls.foldl after { layout }

/-! ## One call -/

end Explainer

/-- The simple selectors that a call of a concrete handler visits. -/
def Event.visits : Event → List Simple
  | .visitKind _ s => [s]
  | _ => []

/-- The simple selectors that a call visits, unless a failure ends it early. -/
def Call.visits : Call → List Simple
  | .event e => e.visits
  | .walk g | .walkGroup g => g.trace.flatMap Event.visits
  | .walkSequence s => s.trace.flatMap Event.visits
  | .walkCombinator c => c.trace.flatMap Event.visits
  | .walkSimple s => [s]
  | _ => []

namespace Explainer

/-- What the steps of an explainer keep as long as the simple selectors that it visits are `fine`.
    A group is only entered when the document is empty. -/
structure KeptFor (fine : Simple → Prop) (P : Explainer → Prop) : Prop where
  clear : ∀ {x}, P x → P x.clear
  enterGroup : ∀ {x}, P x → x.document.isEmpty → P ((enter .selectorGroup "").run x).2
  enterSequence : ∀ {x}, P x → P (enterSequence.run x).2
  enterCombinator : ∀ {x}, P x → ∀ kind : CombinatorKind,
    P ((enter (.ofCombinator kind) kind.punctuation).run x).2
  close : ∀ {x}, P x → ∀ kind, P ((close kind).run x).2
  visitSimple : ∀ {x}, P x → ∀ s, fine s → P ((visitSimple s).run x).2

namespace KeptFor

variable {fine : Simple → Prop} {P : Explainer → Prop} {x : Explainer}

/-- A call of a concrete handler is one of the steps, or does nothing. -/
theorem call (hP : KeptFor fine P) (h : P x) {e : Event} (hfine : ∀ s ∈ e.visits, fine s) :
    P ((visitor.call e).run x).2 := by
  cases e with
  | enterGroup g =>
      show P (Explainer.enterGroup.run x).2
      rw [enterGroup_run]
      by_cases hempty : x.document.isEmpty
      · rw [if_pos hempty]
        exact hP.enterGroup h hempty
      · rw [if_neg hempty]
        exact h
  | leaveGroup g =>
      rw [Visitor.call, Handler.run_andReturn_snd]
      exact hP.close h _
  | enterSequence s => exact hP.enterSequence h
  | leaveSequence s =>
      rw [Visitor.call, Handler.run_andReturn_snd]
      exact hP.close h _
  | enterKind kind c => exact hP.enterCombinator h _
  | leaveKind kind c =>
      rw [Visitor.call, Handler.run_andReturn_snd]
      exact hP.close h _
  | visitKind kind s =>
      rw [Visitor.call, Handler.run_andReturn_snd]
      exact hP.visitSimple h s (hfine s (List.mem_singleton_self s))

theorem follows (hP : KeptFor fine P) (h : P x) {walk : Handler Explainer ExplainError Flow}
    {trace : List Event} (hfine : ∀ s ∈ trace.flatMap Event.visits, fine s)
    (hwalk : visitor.Follows walk trace) : P (walk.run x).2 := by
  have hplay : P (visitor.play 0 trace x).2 :=
    Visitor.play_invariant_of_mem P
      (fun e he _ hx => hP.call hx fun s hs => hfine s (List.mem_flatMap.2 ⟨e, he, hs⟩)) 0 x h
  rw [hwalk.run_eq]
  exact hplay

theorem perform (hP : KeptFor fine P) (h : P x) {c : Call} (hfine : ∀ s ∈ c.visits, fine s) :
    P (x.after c) := by
  unfold after
  cases c with
  | clear => exact hP.clear h
  | event e => exact hP.call h hfine
  | enterCombinator c => exact hP.enterCombinator h _
  | leaveCombinator c =>
      rw [Visitor.perform, Handler.run_andReturn_snd]
      exact hP.close h _
  | visitSimple n => exact h
  | enterNode n => exact h
  | leaveNode n => exact h
  | visitNode n => exact h
  | walk g =>
      rw [Visitor.perform, Handler.run_andReturn_snd, Visitor.run_walk_snd]
      exact hP.follows h hfine (visitor.follows_walkGroup g)
  | walkGroup g => exact hP.follows h hfine (visitor.follows_walkGroup g)
  | walkSequence s => exact hP.follows h hfine (visitor.follows_walkSequence s)
  | walkCombinator c => exact hP.follows h hfine (visitor.follows_walkCombinator c)
  | walkSimple s =>
      rw [Visitor.perform, Handler.run_andReturn_snd]
      exact hP.visitSimple h s (hfine s (List.mem_singleton_self s))

/-- What the steps keep holds after any calls that visit nothing else. -/
theorem reached (hP : KeptFor fine P) {layout : Layout} (hstart : P { layout })
    {calls : List Call} (hfine : ∀ c ∈ calls, ∀ s ∈ c.visits, fine s) :
    P (reached layout calls) := by
  -- by induction on the calls, from any explainer with the property
  have hrun : ∀ x : Explainer, P x → P (calls.foldl after x) := by
    induction calls with
    | nil => exact fun x hx => hx
    | cons c calls ih =>
        obtain ⟨hfirst, hrest⟩ := List.forall_mem_cons.1 hfine
        exact fun x hx => ih hrest _ (hP.perform hx hfirst)
  exact hrun _ hstart

end KeptFor

/-- What the steps of an explainer keep. The elements that they open are no texts. -/
structure Kept (P : Explainer → Prop) : Prop where
  clear : ∀ {x}, P x → P x.clear
  enter : ∀ {x}, P x → ∀ tag content, tag ≠ .text → P ((enter tag content).run x).2
  close : ∀ {x}, P x → ∀ kind, P ((close kind).run x).2
  enterSequence : ∀ {x}, P x → P (enterSequence.run x).2
  visitSimple : ∀ {x}, P x → ∀ s, P ((visitSimple s).run x).2

theorem ofCombinator_ne_text (kind : CombinatorKind) : Tag.ofCombinator kind ≠ .text := by
  cases kind <;> decide

namespace Kept

variable {P : Explainer → Prop} {x : Explainer}

theorem keptFor (hP : Kept P) : KeptFor (fun _ => True) P where
  clear := hP.clear
  enterGroup := fun h _ => hP.enter h _ _ (by decide)
  enterSequence := hP.enterSequence
  enterCombinator := fun h _ => hP.enter h _ _ (ofCombinator_ne_text _)
  close := hP.close
  visitSimple := fun h s _ => hP.visitSimple h s

theorem call (hP : Kept P) (h : P x) (e : Event) : P ((visitor.call e).run x).2 :=
  hP.keptFor.call h fun _ _ => trivial

/-- What the steps keep holds after any calls. -/
theorem reached (hP : Kept P) {layout : Layout} (hstart : P { layout }) (calls : List Call) :
    P (reached layout calls) :=
  hP.keptFor.reached hstart fun _ _ _ _ => trivial

end Kept

/-! ## Order -/

theorem InOrder.sound {x : Explainer} (h : x.InOrder) : x.Sound := by
  obtain ⟨layout, height, ts, hspine, rfl⟩ := h
  intro id hid
  have hlt := lt_of_mem_spineFrom hspine id (List.mem_reverse.1 hid)
  simpa [ofForest] using hlt

/-- What holds of a forest and of how far its rightmost path is open, whatever an explainer adds,
    opens and closes. -/
structure Grows (S : Nat → List Tree → Prop) : Prop where
  hasSpine : ∀ {height ts}, S height ts → HasSpine height ts
  nil : S 0 []
  graft : ∀ {height ts}, S height ts → ∀ {new}, TextLeaves new → S height (graft height new ts)
  graft_succ : ∀ {height ts}, S height ts → ∀ {tag}, tag ≠ .text → ∀ {children},
    TextLeaves children → S (height + 1) (Tree.graft height [.node tag none none children] ts)
  of_succ : ∀ {height ts}, S (height + 1) ts → S height ts

/-- The explainer has built such a forest and has that much of its rightmost path open. -/
def Built (S : Nat → List Tree → Prop) (x : Explainer) : Prop :=
  ∃ layout height ts, S height ts ∧ x = ofForest layout height ts

section

variable {S : Nat → List Tree → Prop} {x : Explainer}

theorem built_ofForest {height : Nat} {ts : List Tree} (layout : Layout) (h : S height ts) :
    (ofForest layout height ts).Built S :=
  ⟨layout, height, ts, h, rfl⟩

theorem Built.enter (hS : Grows S) (h : x.Built S) {tag : Tag} (htag : tag ≠ .text)
    (content : String) : ((enter tag content).run x).2.Built S := by
  obtain ⟨layout, height, ts, hts, rfl⟩ := h
  rw [run_enter layout (hS.hasSpine hts)]
  exact built_ofForest layout (hS.graft_succ hts htag (textLeaves_content content))

theorem Built.close (hS : Grows S) (h : x.Built S) (kind : NodeKind) :
    ((close kind).run x).2.Built S := by
  obtain ⟨layout, height, ts, hts, rfl⟩ := h
  cases height with
  | zero =>
      rw [close_ofForest_zero]
      exact built_ofForest layout hts
  | succ height =>
      rw [close_ofForest layout (hS.hasSpine hts)]
      exact built_ofForest layout (hS.of_succ hts)

theorem Built.enterSequence (hS : Grows S) (h : x.Built S) :
    (enterSequence.run x).2.Built S := by
  obtain ⟨layout, height, ts, hts, rfl⟩ := h
  rw [run_enterSequence layout (hS.hasSpine hts)]
  exact built_ofForest layout
    (hS.graft_succ (hS.graft hts (textLeaves_separators _)) (by decide) .nil)

theorem Built.visitSimple (hS : Grows S) (h : x.Built S) (s : Simple) :
    ((visitSimple s).run x).2.Built S := by
  obtain ⟨layout, height, ts, hts, rfl⟩ := h
  rw [run_visitSimple layout (hS.hasSpine hts)]
  exact built_ofForest layout (hS.graft hts s.textLeaves_explanation)

/-- Each step adds to the forest, opens what it has added last, or closes the innermost element. -/
theorem Grows.kept (hS : Grows S) : Kept (Built S) where
  clear := fun {x} _ => built_ofForest x.layout hS.nil
  enter := fun h _ content htag => h.enter hS htag content
  close := fun h kind => h.close hS kind
  enterSequence := fun h => h.enterSequence hS
  visitSimple := fun h s => h.visitSimple hS s

theorem Grows.reached (hS : Grows S) (layout : Layout) (calls : List Call) :
    (reached layout calls).Built S :=
  hS.kept.reached (built_ofForest layout hS.nil) calls

end

theorem hasSpine_grows : Grows HasSpine where
  hasSpine := id
  nil := .zero []
  graft := fun h _ _ => h.graft _
  graft_succ := fun h _ _ _ _ => h.graft_succ _
  of_succ := HasSpine.of_succ

theorem openSpine_grows : Grows OpenSpine where
  hasSpine := OpenSpine.hasSpine
  nil := .zero .nil
  graft := fun h _ hnew => h.graft hnew
  graft_succ := fun h _ htag _ hchildren => h.graft_succ htag none hchildren
  of_succ := OpenSpine.of_succ

/-- No step breaks the order. -/
theorem inOrder_kept : Kept InOrder := hasSpine_grows.kept

theorem inOrder_reached (layout : Layout) (calls : List Call) :
    (reached layout calls).InOrder :=
  hasSpine_grows.reached layout calls

end Explainer

/-! ## The checks are never needed -/

namespace Checked

/-- The checked visitor plays a trace with the same calls and the same end. -/
theorem play_eq (trace : List Event) :
    ∀ (skipped : Nat) {x : Explainer}, x.InOrder →
      visitor.play skipped trace x =
        ((Explainer.visitor.play skipped trace x).1.map fun c => (c.1, refuse c.2),
          (Explainer.visitor.play skipped trace x).2) := by
  induction trace with
  | nil =>
      intro skipped x _
      cases skipped <;> rfl
  | cons e rest ih =>
      intro skipped x h
      cases skipped with
      | succ skipped => exact ih _ h
      | zero =>
          -- the call agrees and keeps the explainer in order, so that the rest agrees too
          have hcall := agrees_call h.sound e
          have hnext := Explainer.inOrder_kept.call h e
          rcases hrun : (Explainer.visitor.call e).run x with ⟨failure | flow, next⟩
          · rw [Agrees, hrun] at hcall
            rw [Visitor.play_error hrun, Visitor.play_error hcall]
            rfl
          · rw [Agrees, hrun] at hcall
            rw [hrun] at hnext
            cases flow with
            | descend =>
                rw [Visitor.play_descend hrun, Visitor.play_descend hcall, ih 0 hnext]
                rfl
            | skip =>
                rw [Visitor.play_skip hrun, Visitor.play_skip hcall, ih 1 hnext]
                rfl
            | stop =>
                rw [Visitor.play_stop hrun, Visitor.play_stop hcall]
                rfl

theorem outcome_map (calls : Calls ExplainError) :
    Calls.outcome (calls.map fun c => (c.1, refuse c.2)) = refuse calls.outcome := by
  unfold Calls.outcome
  rw [List.getLast?_map]
  rcases calls.getLast? with _ | ⟨e, failure | flow⟩
  · rfl
  · rfl
  · cases flow <;> rfl

theorem agrees_follows {x : Explainer} (h : x.InOrder) {trace : List Event}
    {checked : Handler Explainer Fault Flow} {walk : Handler Explainer ExplainError Flow}
    (hchecked : visitor.Follows checked trace) (hwalk : Explainer.visitor.Follows walk trace) :
    Agrees checked walk x := by
  rw [Agrees, hchecked.run_eq, hwalk.run_eq, play_eq trace 0 h, outcome_map]

theorem agrees_perform {x : Explainer} (h : x.InOrder) (c : Call) :
    Agrees (visitor.perform c) (Explainer.visitor.perform c) x := by
  cases c with
  | clear => rfl
  | event e => exact agrees_call h.sound e
  | enterCombinator c => exact agrees_enter h.sound _ _
  | leaveCombinator c => exact (agrees_close x _).andReturn _
  | visitSimple n => rfl
  | enterNode n => rfl
  | leaveNode n => rfl
  | visitNode n => rfl
  | walk g =>
      have hgroup := agrees_follows h (visitor.follows_walkGroup g)
        (Explainer.visitor.follows_walkGroup g)
      exact (hgroup.andReturn ()).andReturn _
  | walkGroup g =>
      exact agrees_follows h (visitor.follows_walkGroup g) (Explainer.visitor.follows_walkGroup g)
  | walkSequence s =>
      exact agrees_follows h (visitor.follows_walkSequence s)
        (Explainer.visitor.follows_walkSequence s)
  | walkCombinator c =>
      exact agrees_follows h (visitor.follows_walkCombinator c)
        (Explainer.visitor.follows_walkCombinator c)
  | walkSimple s => exact (agrees_visitSimple h.sound s).andReturn _

end Checked

/-! ## What holds of every explainer that can be reached -/

namespace Explainer

/-- **Every explainer stays in order.** After any calls, the open elements start the rightmost path
    of the document, from its last root on, and are elements of it, so that whatever is done next
    runs as if every append were checked; going through the document from its roots meets its
    elements in the order of the array, each of them once; and its text is that of the elements in
    this order. -/
theorem reached_in_order (layout : Layout) (calls : List Call) :
    (reached layout calls).document.Rightmost none (reached layout calls).cursor.reverse ∧
    (∀ id ∈ (reached layout calls).cursor, id < (reached layout calls).document.size) ∧
    (∀ c, Checked.Agrees (Checked.visitor.perform c) (visitor.perform c) (reached layout calls)) ∧
    (reached layout calls).document.preorder = List.range (reached layout calls).document.size ∧
    (∀ id < (reached layout calls).document.size, (reached layout calls).document.Attached id) ∧
    (reached layout calls).text = String.join
      ((reached layout calls).document.elements.toList.map fun e => e.text.getD "") := by
  have hinOrder := inOrder_reached layout calls
  refine ⟨?_, hinOrder.sound, Checked.agrees_perform hinOrder, ?_⟩
  · obtain ⟨layout', height, ts, hspine, hx⟩ := hinOrder
    rw [hx]
    simpa [ofForest] using Document.rightmost_spineFrom hspine
  · obtain ⟨layout', height, ts, hspine, hx⟩ := hinOrder
    have hpreorder : (ofForest layout' height ts).document.preorder =
        List.range (ofForest layout' height ts).document.size := Document.preorder_ofForest ts
    rw [hx]
    refine ⟨hpreorder, fun id hid => ?_, Document.text_ofForest ts⟩
    apply Document.attached_of_mem_preorder
    rw [hpreorder]
    exact List.mem_range.2 hid

end Explainer

end SelectorExplain
