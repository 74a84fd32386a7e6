import SelectorExplain.Proofs.Visitor.Trace

set_option autoImplicit false

/-! # Recording what a walk calls

A visitor can be made to write down every call of one of its concrete handlers, with what the
handler answered. That changes neither its state nor its answers, so a walk of the recording visitor
shows the calls that a walk of the visitor makes. They are the calls of a play of the full trace:
nothing else is called, nothing is called in another order, and what the walk answers is decided by
the last of them.

Whatever is written down beside the calls, a play makes the same calls (`Annotates`), so that one
induction serves for this record and for others. -/

namespace SelectorExplain

namespace Handler

variable {σ ε α : Type}

/-- Runs a handler and writes down the event with what `answer` makes of the result. -/
def record (e : Event) (answer : α → Flow) (h : Handler σ ε α) : Handler (σ × Calls ε) ε α :=
  ExceptT.mk fun (state, calls) =>
    match h.run state with
    | (result, next) => (result, (next, calls ++ [(e, result.map answer)]))

theorem run_record {h : Handler σ ε α} {state next : σ} {result : Except ε α}
    (hrun : h.run state = (result, next)) (e : Event) (answer : α → Flow) (calls : Calls ε) :
    (h.record e answer).run (state, calls) =
      (result, (next, calls ++ [(e, result.map answer)])) := by
  show (match h.run state with
    | (result, next) => (result, (next, calls ++ [(e, result.map answer)]))) = _
  rw [hrun]

end Handler

namespace Visitor

variable {σ ε : Type}

/-- The visitor that does the same and writes down its calls. It overrides every concrete handler,
    by what the visitor's own handlers come to. -/
def recording (v : Visitor σ ε) : Visitor (σ × Calls ε) ε where
  enterGroup := some fun g => (v.onEnterGroup g).record (.enterGroup g) id
  leaveGroup := some fun g => (v.onLeaveGroup g).record (.leaveGroup g) fun _ => .descend
  enterSequence := some fun s => (v.onEnterSequence s).record (.enterSequence s) id
  leaveSequence := some fun s => (v.onLeaveSequence s).record (.leaveSequence s) fun _ => .descend
  enterKind := fun kind => some fun c => (v.onEnterKind kind c).record (.enterKind kind c) id
  leaveKind := fun kind => some fun c =>
    (v.onLeaveKind kind c).record (.leaveKind kind c) fun _ => .descend
  visitKind := fun kind => some fun s =>
    (v.onVisitKind kind s).record (.visitKind kind s) fun _ => .descend

/-- A recorded handler with something to decide. -/
theorem run_record_flow {h : Handler σ ε Flow} {state next : σ} {answer : Except ε Flow}
    (hrun : h.run state = (answer, next)) (e : Event) (calls : Calls ε) :
    (h.record e id).run (state, calls) = (answer, (next, calls ++ [(e, answer)])) := by
  rw [Handler.run_record hrun]
  cases answer <;> rfl

/-- A recorded handler with nothing to decide. -/
theorem run_record_unit {h : Handler σ ε Unit} {state next : σ} {answer : Except ε Flow}
    (hrun : (do
      h
      return .descend : Handler σ ε Flow).run state = (answer, next)) (e : Event)
    (calls : Calls ε) :
    (do
      h.record e fun _ => .descend
      return .descend : Handler (σ × Calls ε) ε Flow).run (state, calls) =
        (answer, (next, calls ++ [(e, answer)])) := by
  rcases hh : h.run state with ⟨failure | u, after⟩
  · rw [Handler.run_bind_error hh] at hrun
    cases hrun
    rw [Handler.run_bind_error (Handler.run_record hh e _ calls)]
    rfl
  · rw [Handler.run_bind_ok hh, Handler.run_pure] at hrun
    cases hrun
    rw [Handler.run_bind_ok (Handler.run_record hh e _ calls)]
    rfl

theorem call_recording {v : Visitor σ ε} {e : Event} {state next : σ} {answer : Except ε Flow}
    (hcall : (v.call e).run state = (answer, next)) (calls : Calls ε) :
    (v.recording.call e).run (state, calls) = (answer, (next, calls ++ [(e, answer)])) := by
  cases e with
  | enterGroup g => exact run_record_flow hcall _ calls
  | leaveGroup g => exact run_record_unit hcall _ calls
  | enterSequence s => exact run_record_flow hcall _ calls
  | leaveSequence s => exact run_record_unit hcall _ calls
  | enterKind kind c => exact run_record_flow hcall _ calls
  | leaveKind kind c => exact run_record_unit hcall _ calls
  | visitKind kind s => exact run_record_unit hcall _ calls

/-- `w` does what `v` does and writes down what `note` makes of the call and the answer. -/
def Annotates {α : Type} (v : Visitor σ ε) (note : Event → Except ε Flow → List α)
    (w : Visitor (σ × List α) ε) : Prop :=
  ∀ e state log, (w.call e).run (state, log) =
    (((v.call e).run state).1, ((v.call e).run state).2, log ++ note e ((v.call e).run state).1)

/-- A play of a visitor that writes down its calls makes the same calls, and adds its notes on them
    to those that it has already. -/
theorem Annotates.play_eq {α : Type} {v : Visitor σ ε} {note : Event → Except ε Flow → List α}
    {w : Visitor (σ × List α) ε} (h : v.Annotates note w) (trace : List Event) :
    ∀ (skipped : Nat) (state : σ) (log : List α),
      w.play skipped trace (state, log) =
        ((v.play skipped trace state).1, (v.play skipped trace state).2,
          log ++ (v.play skipped trace state).1.flatMap fun c => note c.1 c.2) := by
  induction trace with
  | nil =>
      intro skipped state log
      cases skipped <;> simp [play]
  | cons e rest ih =>
      intro skipped state log
      cases skipped with
      | succ skipped => exact ih _ state log
      | zero =>
          have hcall := h e state log
          rcases hrun : (v.call e).run state with ⟨failure | flow, next⟩
          -- the rest is played with the notes on one more call
          · rw [hrun] at hcall
            rw [play_error hrun, play_error hcall]
            simp
          · rw [hrun] at hcall
            cases flow with
            | descend => simp [play_descend hrun, play_descend hcall, ih]
            | skip => simp [play_skip hrun, play_skip hcall, ih]
            | stop => simp [play_stop hrun, play_stop hcall]

theorem annotates_recording (v : Visitor σ ε) :
    v.Annotates (fun e answer => [(e, answer)]) v.recording :=
  fun _ _ calls => call_recording rfl calls

/-- A play of the recording visitor makes the same calls and writes them down behind those that it
    has already. -/
theorem play_recording (v : Visitor σ ε) (trace : List Event) (skipped : Nat) (state : σ)
    (calls : Calls ε) :
    v.recording.play skipped trace (state, calls) =
      ((v.play skipped trace state).1,
        ((v.play skipped trace state).2, calls ++ (v.play skipped trace state).1)) := by
  rw [v.annotates_recording.play_eq]
  simp

/-! ## What a walk calls -/

/-- `walk` makes exactly the calls of a play of `trace`, as its recorded form shows: it ends in the
    same state, with the answer that its last call decides. -/
def PlaysTrace (v : Visitor σ ε) (trace : List Event) (walk : Handler σ ε Flow)
    (recorded : Handler (σ × Calls ε) ε Flow) : Prop :=
  ∀ state, ∃ (calls : Calls ε) (last : σ), v.play 0 trace state = (calls, last) ∧
    recorded.run (state, []) = (calls.outcome, (last, calls)) ∧
    walk.run state = (calls.outcome, last) ∧ calls.outcome ≠ .ok .skip

theorem Follows.playsTrace {v : Visitor σ ε} {trace : List Event} {walk : Handler σ ε Flow}
    {recorded : Handler (σ × Calls ε) ε Flow} (hwalk : v.Follows walk trace)
    (hrecorded : v.recording.Follows recorded trace) : v.PlaysTrace trace walk recorded := by
  intro state
  refine ⟨_, _, rfl, ?_, hwalk.run_eq state, Calls.outcome_ne_skip _⟩
  rw [hrecorded.run_eq, play_recording, List.nil_append]

/-- **What a walk calls.** Whatever the handlers do and answer, the walks of a group, a sequence and
    a combinator make the calls of a play of their node's full trace, and a walk for its effect
    succeeds exactly if the walk of the group answers at all. -/
theorem walk_plays_trace (v : Visitor σ ε) :
    (∀ g : Group, v.PlaysTrace g.trace (v.walkGroup g) (v.recording.walkGroup g)) ∧
    (∀ s : Sequence, v.PlaysTrace s.trace (v.walkSequence s) (v.recording.walkSequence s)) ∧
    (∀ c : Combinator, v.PlaysTrace c.trace (v.walkCombinator c) (v.recording.walkCombinator c)) ∧
    (∀ (g : Group) (state : σ), (v.walk g).run state =
      match (v.walkGroup g).run state with
      | (.ok _, last) => (.ok (), last)
      | (.error e, last) => (.error e, last)) := by
  refine ⟨fun g => ?_, fun s => ?_, fun c => ?_, fun g state => ?_⟩
  · exact (v.follows_walkGroup g).playsTrace (v.recording.follows_walkGroup g)
  · exact (v.follows_walkSequence s).playsTrace (v.recording.follows_walkSequence s)
  · exact (v.follows_walkCombinator c).playsTrace (v.recording.follows_walkCombinator c)
  · rcases hrun : (v.walkGroup g).run state with ⟨failure | flow, last⟩
    · exact Handler.run_bind_error hrun _
    · exact Handler.run_bind_ok hrun _

end Visitor

end SelectorExplain
