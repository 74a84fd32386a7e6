import SelectorExplain.Proofs.Explainer.InOrder
import SelectorExplain.Proofs.Visitor.Trace

set_option autoImplicit false

/-! # Explaining with checked appends

`Document.push` leaves an element unattached when its parent is no element, and the explainer's
operations push without asking. Here they are written once more with `Document.append`, which
refuses such a parent: `Checked.visitor` is the explainer that ends a call at the first append that
is refused.

The checks are not needed as long as every open element is an element of the document (`Sound`):
then each call of a handler of the checked visitor comes to the same as with `Explainer.visitor`
(`agrees_call`). -/

namespace SelectorExplain

/-- What ends a call: the explainer refuses it, or the document refuses an append. -/
inductive Fault where
  | refused (e : ExplainError)
  | noSuchParent
  deriving DecidableEq, Repr

namespace Checked

/-! ## The visitor -/

/-- Adds an element below a given parent and answers its index. -/
def append (parent : Option Nat) (e : Element) : Handler Explainer Fault Nat :=
  ExceptT.mk fun x =>
    match x.document.append parent e with
    | (answer, document) =>
      (answer.mapError fun .noSuchParent => .noSuchParent, { x with document })

def add (e : Element) : Handler Explainer Fault Nat := do
  append (← get).insertionPoint e

def addText (content : String) : Handler Explainer Fault Unit := do
  let _ ← add (.ofText content)

def addLabelled (tag : Tag) (content : String) : Handler Explainer Fault Nat := do
  let id ← add { tag }
  if content ≠ "" then
    let _ ← append (some id) (.ofText content)
  return id

/-- Opens an element that has been added. -/
def push (id : Nat) : Handler Explainer Fault Unit :=
  modify fun x => { x with cursor := id :: x.cursor }

def addAttributeParts (a : Attribute) : Handler Explainer Fault Unit := do
  addText "["
  let _ ← addLabelled .name a.name
  match a.operator.punctuation, a.literal with
  | some op, some literal =>
    let _ ← addLabelled .operator op
    addText "\""
    let _ ← addLabelled .value (escapeLiteral literal)
    addText "\""
  | _, _ => pure ()
  addText "]"

def close (kind : NodeKind) : Handler Explainer Fault Unit := do
  let x ← get
  match x.cursor with
  | [] => throw (.refused (.unbalancedLeave kind))
  | _ :: outer => set { x with cursor := outer }

def enter (tag : Tag) (content : String) : Handler Explainer Fault Flow := do
  push (← addLabelled tag content)
  return .descend

def label (tag : Tag) (content : String) : Handler Explainer Fault Unit := do
  let _ ← addLabelled tag content

def enterGroup : Handler Explainer Fault Flow := do
  if (← get).document.isEmpty then enter .selectorGroup "" else throw (.refused .notCleared)

def enterSequence : Handler Explainer Fault Flow := do
  if (← get).needsSeparator then addText Group.separator
  enter .selector ""

def visitAttribute (a : Attribute) : Handler Explainer Fault Unit := do
  push (← add { tag := .attr, operator := some a.operator })
  addAttributeParts a
  close (.simple .attr)

def visitSimple : Simple → Handler Explainer Fault Unit
  | .universal space => label .universal (qualify space "*")
  | .type name space => label .type (qualify space name)
  | .id name => label .id ("#" ++ name)
  | .className name => label .className ("." ++ name)
  | .attr test => visitAttribute test

/-- The explainer's handlers, each append checked. -/
def visitor : Visitor Explainer Fault where
  enterGroup := some fun _ => enterGroup
  leaveGroup := some fun _ => close .group
  enterSequence := some fun _ => enterSequence
  leaveSequence := some fun _ => close .sequence
  enterCombinator := some fun c => enter (.ofCombinator c.kind) c.kind.punctuation
  leaveCombinator := some fun c => close (.combinator c.kind)
  visitKind := fun _ => some visitSimple
  enterNode := some fun n => throw (.refused (.unsupported n.kind))
  leaveNode := some fun n => throw (.refused (.unsupported n.kind))
  visitNode := some fun n => throw (.refused (.unsupported n.kind))

end Checked

/-! ## Open elements that exist -/

/-- Every open element is an element of the document. -/
def Explainer.Sound (x : Explainer) : Prop := ∀ id ∈ x.cursor, id < x.document.size

namespace Explainer

variable {x : Explainer}

theorem Sound.add (h : x.Sound) (e : Element) : (x.add e).Sound := by
  intro id hid
  have hlt := h id hid
  rw [Explainer.add, Document.size_push]
  omega

theorem Sound.addText (h : x.Sound) (content : String) : (x.addText content).Sound := h.add _

/-- Opening an element that has just been added. -/
theorem Sound.addOpen (h : x.Sound) (e : Element) :
    { x.add e with cursor := x.document.size :: x.cursor }.Sound := by
  intro id hid
  show id < (x.add e).document.size
  rw [Explainer.add, Document.size_push]
  rcases List.mem_cons.1 hid with rfl | hid
  · exact Nat.lt_succ_self _
  · exact Nat.lt_succ_of_lt (h id hid)

theorem Sound.insertionPoint (h : x.Sound) {id : Nat} (hid : x.insertionPoint = some id) :
    id < x.document.size :=
  h id (List.mem_of_mem_head? hid)

@[simp] theorem cursor_addLabelled (x : Explainer) (tag : Tag) (content : String) :
    (x.addLabelled tag content).cursor = x.cursor := by
  unfold addLabelled
  split <;> rfl

theorem Sound.addLabelled (h : x.Sound) (tag : Tag) (content : String) :
    (x.addLabelled tag content).Sound := by
  intro id hid
  unfold Explainer.addLabelled at hid ⊢
  split at hid
  · rw [if_pos ‹_›]
    exact h.add _ id hid
  · rw [if_neg ‹_›, Document.size_push]
    exact Nat.lt_succ_of_lt (h.add _ id hid)

end Explainer

namespace Checked

open Explainer (Sound)

variable {x : Explainer}

/-! ## Operations -/

theorem run_append {parent : Option Nat} (h : ∀ id, parent = some id → id ≤ x.document.size)
    (e : Element) :
    (append parent e).run x =
      (.ok x.document.size, { x with document := x.document.push parent e }) := by
  cases parent with
  | none => rfl
  | some id =>
      have happend : x.document.append (some id) e =
          (.ok x.document.size, x.document.push (some id) e) := by
        rw [Document.append, if_pos (h id rfl)]
      show (match x.document.append (some id) e with
        | (answer, document) =>
          (answer.mapError fun (.noSuchParent : Document.AppendError) => Fault.noSuchParent,
            { x with document })) = _
      rw [happend]
      rfl

theorem run_add (h : x.Sound) (e : Element) : (add e).run x = (.ok x.document.size, x.add e) :=
  run_append (fun _ hid => Nat.le_of_lt (h.insertionPoint hid)) e

theorem run_addText (h : x.Sound) (content : String) :
    (addText content).run x = (.ok (), x.addText content) :=
  Handler.run_bind_ok (run_add h _) _

theorem run_addLabelled (h : x.Sound) (tag : Tag) (content : String) :
    (addLabelled tag content).run x = (.ok x.document.size, x.addLabelled tag content) := by
  unfold addLabelled Explainer.addLabelled
  rw [Handler.run_bind_ok (run_add h _)]
  by_cases hcontent : content = ""
  · simp only [hcontent, ne_eq, not_true_eq_false, if_false, if_true]
    rfl
  · -- the text goes below the element that has just been added
    have hexists : ∀ id, some x.document.size = some id → id ≤ (x.add { tag }).document.size := by
      intro id hid
      rw [Explainer.add, Document.size_push]
      cases hid
      omega
    have happend := run_append hexists (.ofText content)
    simp only [hcontent, ne_eq, not_false_eq_true, if_true, if_false]
    exact Handler.run_bind_ok happend _

theorem run_enter (h : x.Sound) (tag : Tag) (content : String) :
    (enter tag content).run x = (.ok .descend, x.openLabelled tag content) := by
  unfold enter
  rw [Handler.run_bind_ok (run_addLabelled h tag content), Explainer.openLabelled,
    ← x.cursor_addLabelled tag content]
  rfl

theorem run_label (h : x.Sound) (tag : Tag) (content : String) :
    (label tag content).run x = (.ok (), x.addLabelled tag content) :=
  Handler.run_bind_ok (run_addLabelled h tag content) _

theorem run_addAttributeParts (h : x.Sound) (a : Attribute) :
    (addAttributeParts a).run x = (.ok (), x.addAttributeParts a) := by
  have hopen := h.addText "["
  have hnamed := hopen.addLabelled .name a.name
  unfold addAttributeParts Explainer.addAttributeParts
  rw [Handler.run_bind_ok (run_addText h _), Handler.run_bind_ok (run_addLabelled hopen _ _)]
  cases a.operator.punctuation with
  | none => exact run_addText hnamed _
  | some op =>
      cases a.literal with
      | none => exact run_addText hnamed _
      | some literal =>
          -- each part is added to an explainer that is sound because the one before was
          have hcompared := hnamed.addLabelled .operator op
          have hquoted := hcompared.addText "\""
          have hvalue := hquoted.addLabelled .value (escapeLiteral literal)
          have hunquoted := hvalue.addText "\""
          dsimp only
          rw [Handler.run_bind_ok (run_addLabelled hnamed _ _),
            Handler.run_bind_ok (run_addText hcompared _),
            Handler.run_bind_ok (run_addLabelled hquoted _ _),
            Handler.run_bind_ok (run_addText hvalue _)]
          exact run_addText hunquoted _

/-! ## Handlers -/

/-- What the checked visitor answers where the explainer answers `answer`. -/
def refuse {α : Type} (answer : Except ExplainError α) : Except Fault α := answer.mapError .refused

/-- On an explainer, a checked handler comes to the same as an unchecked one. -/
def Agrees {α : Type} (checked : Handler Explainer Fault α)
    (h : Handler Explainer ExplainError α) (x : Explainer) : Prop :=
  checked.run x = (refuse (h.run x).1, (h.run x).2)

theorem agrees_enter (h : x.Sound) (tag : Tag) (content : String) :
    Agrees (enter tag content) (Explainer.enter tag content) x :=
  run_enter h tag content

theorem agrees_close (x : Explainer) (kind : NodeKind) :
    Agrees (close kind) (Explainer.close kind) x := by
  obtain ⟨document, cursor, layout⟩ := x
  cases cursor <;> rfl

theorem agrees_enterGroup (h : x.Sound) : Agrees enterGroup Explainer.enterGroup x := by
  have hchecked : enterGroup.run x = (if x.document.isEmpty then enter .selectorGroup "" else
      throw (.refused .notCleared) : Handler Explainer Fault Flow).run x := rfl
  unfold Agrees
  rw [hchecked, Explainer.enterGroup_run]
  by_cases hempty : x.document.isEmpty
  · rw [if_pos hempty, if_pos hempty]
    exact agrees_enter h _ _
  · rw [if_neg hempty, if_neg hempty]
    rfl

theorem agrees_enterSequence (h : x.Sound) : Agrees enterSequence Explainer.enterSequence x := by
  have hchecked : enterSequence.run x = (if x.needsSeparator then
      (do
        addText Group.separator
        enter .selector "")
      else enter .selector "" : Handler Explainer Fault Flow).run x := rfl
  unfold Agrees
  rw [hchecked, Explainer.enterSequence_run, Explainer.separated]
  by_cases hseparated : x.needsSeparator
  · rw [if_pos hseparated, if_pos hseparated, Handler.run_bind_ok (run_addText h _)]
    exact agrees_enter (h.addText _) _ _
  · rw [if_neg hseparated, if_neg hseparated]
    exact agrees_enter h _ _

theorem agrees_visitSimple (h : x.Sound) (s : Simple) :
    Agrees (visitSimple s) (Explainer.visitSimple s) x := by
  cases s with
  | universal space => exact run_label h _ _
  | type name space => exact run_label h _ _
  | id name => exact run_label h _ _
  | className name => exact run_label h _ _
  | attr test =>
      have hopened := h.addOpen { tag := .attr, operator := some test.operator }
      show (visitAttribute test).run x = _
      have hpush : (push x.document.size).run
          (x.add { tag := .attr, operator := some test.operator }) =
          (.ok (), { x.add { tag := .attr, operator := some test.operator } with
            cursor := x.document.size :: x.cursor }) := rfl
      unfold visitAttribute
      rw [Handler.run_bind_ok (run_add h _), Handler.run_bind_ok hpush,
        Handler.run_bind_ok (run_addAttributeParts hopened test)]
      exact agrees_close _ _

/-- What an answer is replaced by does not matter. -/
theorem Agrees.andReturn {α β : Type} {checked : Handler Explainer Fault α}
    {h : Handler Explainer ExplainError α} (hagrees : Agrees checked h x) (b : β) :
    Agrees (do
      let _ ← checked
      return b) (do
      let _ ← h
      return b) x := by
  rcases hrun : h.run x with ⟨failure | a, next⟩
  · rw [Agrees, hrun] at hagrees
    rw [Agrees, Handler.run_bind_error hrun, Handler.run_bind_error hagrees]
    rfl
  · rw [Agrees, hrun] at hagrees
    rw [Agrees, Handler.run_bind_ok hrun, Handler.run_bind_ok hagrees]
    rfl

/-- **No append is refused** in a call of a concrete handler while the open elements exist. -/
theorem agrees_call (h : x.Sound) (e : Event) :
    Agrees (visitor.call e) (Explainer.visitor.call e) x := by
  cases e with
  | enterGroup g => exact agrees_enterGroup h
  | leaveGroup g => exact (agrees_close x .group).andReturn _
  | enterSequence s => exact agrees_enterSequence h
  | leaveSequence s => exact (agrees_close x .sequence).andReturn _
  | enterKind kind c => exact agrees_enter h _ _
  | leaveKind kind c => exact (agrees_close x _).andReturn _
  | visitKind kind s => exact (agrees_visitSimple h s).andReturn _

end Checked

end SelectorExplain
