import Mathlib.Data.List.Basic
import SelectorExplain.Visitor.Walk

set_option autoImplicit false

/-! # What a walk calls

A tree has a *full trace*: every call of a concrete handler that a walk makes when each entering
handler answers `descend`. What a visitor gets to see of it depends on its own answers, and these on
the state that the calls before have left behind. `Visitor.play` goes through a trace from left to
right, without looking at the tree: an entering handler that answers `skip` drops the rest of its
node, and the first handler that answers `stop` or fails ends the play.

The walks of `Visitor/Walk.lean` are recursive functions on the tree. Each of them is a play of the
full trace of its node (`Follows`), which is one induction on the tree; what is true of all calls of
a walk is then shown by induction on a list of events (`play_invariant`). -/

namespace SelectorExplain

/-! ## Running handlers one after the other -/

namespace Handler

variable {σ ε α β : Type}

theorem run_pure (a : α) (state : σ) : (pure a : Handler σ ε α).run state = (.ok a, state) := rfl

theorem run_bind_ok {h : Handler σ ε α} {state next : σ} {a : α}
    (hrun : h.run state = (.ok a, next)) (k : α → Handler σ ε β) :
    (h >>= k).run state = (k a).run next := by
  show (match h.run state with | (r, s) => ExceptT.bindCont k r s) = _
  rw [hrun]
  rfl

theorem run_bind_error {h : Handler σ ε α} {state next : σ} {e : ε}
    (hrun : h.run state = (.error e, next)) (k : α → Handler σ ε β) :
    (h >>= k).run state = (.error e, next) := by
  show (match h.run state with | (r, s) => ExceptT.bindCont k r s) = _
  rw [hrun]
  rfl

/-- Another answer in place of a handler's own, unless it fails. -/
theorem run_andReturn (h : Handler σ ε α) (b : β) (state : σ) :
    (do
      let _ ← h
      return b : Handler σ ε β).run state =
        ((h.run state).1.map fun _ => b, (h.run state).2) := by
  rcases hrun : h.run state with ⟨failure | a, next⟩
  · rw [run_bind_error hrun]
    rfl
  · rw [run_bind_ok hrun]
    rfl

/-- What a handler leaves behind does not depend on what is answered in its place. -/
theorem run_andReturn_snd (h : Handler σ ε α) (b : β) (state : σ) :
    ((do
      let _ ← h
      return b : Handler σ ε β).run state).2 = (h.run state).2 :=
  congrArg Prod.snd (run_andReturn h b state)

end Handler

theorem Visitor.run_walk_snd {σ ε : Type} (v : Visitor σ ε) (g : Group) (state : σ) :
    ((v.walk g).run state).2 = ((v.walkGroup g).run state).2 :=
  Handler.run_andReturn_snd (v.walkGroup g) () state

/-! ## Traces -/

/-- A call of a concrete handler. The handlers for combinators and simple selectors come one for
    each kind, so the kind that is called for stands beside the node. -/
inductive Event where
  | enterGroup (g : Group)
  | leaveGroup (g : Group)
  | enterSequence (s : Sequence)
  | leaveSequence (s : Sequence)
  | enterKind (kind : CombinatorKind) (c : Combinator)
  | leaveKind (kind : CombinatorKind) (c : Combinator)
  | visitKind (kind : SimpleKind) (s : Simple)
  deriving DecidableEq, Repr

/-- The call for a simple selector, by the handler for its kind. -/
def Event.visit (s : Simple) : Event := .visitKind s.kind s

/-- How many nodes are open after an event, if `depth` are open before. -/
def Event.depthAfter (depth : Nat) : Event → Nat
  | enterGroup _ | enterSequence _ | enterKind _ _ => depth + 1
  | leaveGroup _ | leaveSequence _ | leaveKind _ _ => depth - 1
  | visitKind _ _ => depth

/-- The full trace of a sequence. -/
def Sequence.trace : Sequence → List Event
  | .last simples =>
    .enterSequence (.last simples) :: (simples.map .visit ++ [.leaveSequence (.last simples)])
  | .chained simples kind target =>
    .enterSequence (.chained simples kind target) ::
      ((simples.map .visit ++ (.enterKind kind ⟨kind, target⟩ ::
        (target.trace ++ [.leaveKind kind ⟨kind, target⟩]))) ++
      [.leaveSequence (.chained simples kind target)])

/-- The full trace of a combinator. -/
def Combinator.trace (c : Combinator) : List Event :=
  .enterKind c.kind c :: (c.target.trace ++ [.leaveKind c.kind c])

/-- The full trace of a group. -/
def Group.trace (g : Group) : List Event :=
  .enterGroup g :: (g.sequences.flatMap Sequence.trace ++ [.leaveGroup g])

/-! ## Playing a trace -/

/-- The calls that were made, in order, each with what the handler answered. A handler that has
    nothing to decide answers `descend` when it succeeds. -/
abbrev Calls (ε : Type) := List (Event × Except ε Flow)

/-- What a walk that made these calls answers: the failure of the last call, or `stop` if the last
    call asked for that, and else `descend`. -/
def Calls.outcome {ε : Type} (calls : Calls ε) : Except ε Flow :=
  match calls.getLast? with
  | some (_, .error e) => .error e
  | some (_, .ok .stop) => .ok .stop
  | _ => .ok .descend

namespace Visitor

variable {σ ε : Type}

/-- The concrete handler that an event calls. -/
def call (v : Visitor σ ε) : Event → Handler σ ε Flow
  | .enterGroup g => v.onEnterGroup g
  | .leaveGroup g => do
    v.onLeaveGroup g
    return .descend
  | .enterSequence s => v.onEnterSequence s
  | .leaveSequence s => do
    v.onLeaveSequence s
    return .descend
  | .enterKind kind c => v.onEnterKind kind c
  | .leaveKind kind c => do
    v.onLeaveKind kind c
    return .descend
  | .visitKind kind s => do
    v.onVisitKind kind s
    return .descend

/-- Goes through a trace and calls one handler after the other. `skipped` counts the nodes that are
    open inside one that is passed over; while there is any, events are dropped. -/
def play (v : Visitor σ ε) : (skipped : Nat) → List Event → σ → Calls ε × σ
  | _, [], state => ([], state)
  | skipped + 1, e :: rest, state => v.play (e.depthAfter (skipped + 1)) rest state
  | 0, e :: rest, state =>
    match (v.call e).run state with
    | (.ok .descend, next) =>
      ((e, .ok .descend) :: (v.play 0 rest next).1, (v.play 0 rest next).2)
    | (.ok .skip, next) => ((e, .ok .skip) :: (v.play 1 rest next).1, (v.play 1 rest next).2)
    | (answer, next) => ([(e, answer)], next)

/-! ## One step of a play -/

theorem play_descend {v : Visitor σ ε} {e : Event} {state next : σ}
    (hcall : (v.call e).run state = (.ok .descend, next)) (rest : List Event) :
    v.play 0 (e :: rest) state =
      ((e, .ok .descend) :: (v.play 0 rest next).1, (v.play 0 rest next).2) := by
  rw [play, hcall]

theorem play_skip {v : Visitor σ ε} {e : Event} {state next : σ}
    (hcall : (v.call e).run state = (.ok .skip, next)) (rest : List Event) :
    v.play 0 (e :: rest) state =
      ((e, .ok .skip) :: (v.play 1 rest next).1, (v.play 1 rest next).2) := by
  rw [play, hcall]

theorem play_stop {v : Visitor σ ε} {e : Event} {state next : σ}
    (hcall : (v.call e).run state = (.ok .stop, next)) (rest : List Event) :
    v.play 0 (e :: rest) state = ([(e, .ok .stop)], next) := by
  rw [play, hcall]

theorem play_error {v : Visitor σ ε} {e : Event} {state next : σ} {failure : ε}
    (hcall : (v.call e).run state = (.error failure, next)) (rest : List Event) :
    v.play 0 (e :: rest) state = ([(e, .error failure)], next) := by
  rw [play, hcall]

/-- What holds before a play and is kept by each handler of the trace holds after the play. -/
theorem play_invariant_of_mem {v : Visitor σ ε} (holds : σ → Prop) {trace : List Event}
    (hcall : ∀ e ∈ trace, ∀ state, holds state → holds ((v.call e).run state).2) :
    ∀ (skipped : Nat) (state : σ), holds state → holds (v.play skipped trace state).2 := by
  induction trace with
  | nil =>
      intro skipped state hstate
      cases skipped <;> exact hstate
  | cons e rest ih =>
      have hrest := ih fun e he => hcall e (List.mem_cons_of_mem _ he)
      intro skipped state hstate
      cases skipped with
      -- what is passed over is not called and changes nothing
      | succ skipped => exact hrest _ state hstate
      | zero =>
          have hnext := hcall e List.mem_cons_self state hstate
          rcases hrun : (v.call e).run state with ⟨failure | flow, next⟩
          · rw [play_error hrun]
            rwa [hrun] at hnext
          · rw [hrun] at hnext
            cases flow with
            | descend => rw [play_descend hrun]; exact hrest 0 next hnext
            | skip => rw [play_skip hrun]; exact hrest 1 next hnext
            | stop => rw [play_stop hrun]; exact hnext

/-- What every handler keeps holds after any play. -/
theorem play_invariant {v : Visitor σ ε} (holds : σ → Prop)
    (hcall : ∀ e state, holds state → holds ((v.call e).run state).2) (trace : List Event) :
    ∀ (skipped : Nat) (state : σ), holds state → holds (v.play skipped trace state).2 :=
  play_invariant_of_mem holds fun e _ => hcall e

/-! ## What the last call decides -/

end Visitor

namespace Calls

variable {ε : Type}

@[simp] theorem outcome_nil : outcome ([] : Calls ε) = .ok .descend := rfl

theorem outcome_cons_ok {e : Event} {flow : Flow} (hflow : flow ≠ .stop) (calls : Calls ε) :
    outcome ((e, .ok flow) :: calls) = outcome calls := by
  cases calls with
  | nil => cases flow <;> first | rfl | exact absurd rfl hflow
  | cons c rest => simp only [outcome, List.getLast?_cons_cons]

theorem outcome_append {calls : Calls ε} (hcalls : calls.outcome = .ok .descend) (more : Calls ε) :
    outcome (calls ++ more) = outcome more := by
  cases more with
  | nil => rw [List.append_nil, hcalls, outcome_nil]
  | cons c rest => simp only [outcome, List.getLast?_append_cons]

/-- No walk answers `skip`: that is between an entering handler and the walk of its node. -/
theorem outcome_ne_skip (calls : Calls ε) : calls.outcome ≠ .ok .skip := by
  unfold outcome
  split <;> simp

end Calls

namespace Visitor

variable {σ ε : Type}

/-! ## What is passed over -/

/-- A trace of whole nodes: while something is skipped, it is dropped from end to end. -/
def PassedOver (v : Visitor σ ε) (trace : List Event) : Prop :=
  ∀ (skipped : Nat) (rest : List Event) (state : σ),
    v.play (skipped + 1) (trace ++ rest) state = v.play (skipped + 1) rest state

theorem passedOver_append {v : Visitor σ ε} {first second : List Event}
    (hfirst : v.PassedOver first) (hsecond : v.PassedOver second) :
    v.PassedOver (first ++ second) := by
  intro skipped rest state
  rw [List.append_assoc, hfirst, hsecond]

theorem passedOver_node {v : Visitor σ ε} {enter leave : Event} {inside : List Event}
    (henter : ∀ depth, enter.depthAfter depth = depth + 1)
    (hleave : ∀ depth, leave.depthAfter depth = depth - 1) (hinside : v.PassedOver inside) :
    v.PassedOver (enter :: (inside ++ [leave])) := by
  intro skipped rest state
  -- one level deeper while inside, and back at the leave
  rw [List.cons_append, play, henter, List.append_assoc, hinside, List.singleton_append, play,
    hleave]
  rfl

theorem passedOver_visits (v : Visitor σ ε) (simples : List Simple) :
    v.PassedOver (simples.map .visit) := by
  induction simples with
  | nil => intro skipped rest state; rfl
  | cons s simples ih => intro skipped rest state; exact ih skipped rest state

theorem passedOver_sequence (v : Visitor σ ε) (s : Sequence) : v.PassedOver s.trace := by
  induction s with
  | last simples =>
      exact passedOver_node (fun _ => rfl) (fun _ => rfl) (passedOver_visits v simples)
  | chained simples kind target ih =>
      refine passedOver_node (fun _ => rfl) (fun _ => rfl) ?_
      refine passedOver_append (passedOver_visits v simples) ?_
      exact passedOver_node (fun _ => rfl) (fun _ => rfl) ih

theorem passedOver_sequences (v : Visitor σ ε) (sequences : List Sequence) :
    v.PassedOver (sequences.flatMap Sequence.trace) := by
  induction sequences with
  | nil => intro skipped rest state; rfl
  | cons s sequences ih => exact passedOver_append (passedOver_sequence v s) ih

/-! ## Walks are plays

A walk is part of a larger one, so the statement for one node says what becomes of the events behind
it: they are played if the walk of the node answers `descend`, and else nothing more is called. -/

/-- A walk that makes the calls of a play of `trace`, whatever comes behind. -/
def Follows (v : Visitor σ ε) (walk : Handler σ ε Flow) (trace : List Event) : Prop :=
  ∀ state, ∃ (calls : Calls ε) (last : σ), walk.run state = (calls.outcome, last) ∧
    ∀ rest, v.play 0 (trace ++ rest) state =
      match calls.outcome with
      | .ok .descend => (calls ++ (v.play 0 rest last).1, (v.play 0 rest last).2)
      | _ => (calls, last)

/-- The rest of a walk that goes on only behind a part that answers `descend`. -/
theorem Follows.append {v : Visitor σ ε} {first second : Handler σ ε Flow}
    {trace more : List Event} (hfirst : v.Follows first trace) (hsecond : v.Follows second more) :
    v.Follows (do
      match ← first with
      | .stop => return .stop
      | _ => second) (trace ++ more) := by
  intro state
  obtain ⟨calls, next, hrun, hplay⟩ := hfirst state
  rcases hout : calls.outcome with failure | flow
  · -- the first part has failed, and nothing behind it is called
    rw [hout] at hrun
    refine ⟨calls, next, ?_, fun rest => ?_⟩
    · rw [Handler.run_bind_error hrun, hout]
    · rw [List.append_assoc, hplay, hout]
  · rw [hout] at hrun
    cases flow with
    | descend =>
        -- the second part starts where the first one has ended
        obtain ⟨later, last, hrun', hplay'⟩ := hsecond next
        refine ⟨calls ++ later, last, ?_, fun rest => ?_⟩
        · rw [Handler.run_bind_ok hrun, Calls.outcome_append hout]
          exact hrun'
        · rw [List.append_assoc, hplay, hout, Calls.outcome_append hout]
          simp only [hplay']
          split <;> simp only [List.append_assoc]
    | skip => exact absurd hout calls.outcome_ne_skip
    | stop =>
        refine ⟨calls, next, ?_, fun rest => ?_⟩
        · rw [Handler.run_bind_ok hrun, hout]
          rfl
        · rw [List.append_assoc, hplay, hout]

/-- A handler with nothing to decide, called before the rest of a walk. -/
theorem Follows.after {v : Visitor σ ε} {e : Event} {h : Handler σ ε Unit}
    (hcall : v.call e = do
      h
      return .descend) {walk : Handler σ ε Flow} {trace : List Event}
    (hwalk : v.Follows walk trace) :
    v.Follows (do
      h
      walk) (e :: trace) := by
  intro state
  rcases hrun : h.run state with ⟨failure | u, next⟩
  · have hanswer : (v.call e).run state = (.error failure, next) := by
      rw [hcall, Handler.run_bind_error hrun]
    refine ⟨[(e, .error failure)], next, ?_, fun rest => ?_⟩
    · rw [Handler.run_bind_error hrun]
      rfl
    · exact play_error hanswer _
  · have hanswer : (v.call e).run state = (.ok .descend, next) := by
      rw [hcall, Handler.run_bind_ok hrun]
      rfl
    obtain ⟨calls, last, hrun', hplay⟩ := hwalk next
    refine ⟨(e, .ok .descend) :: calls, last, ?_, fun rest => ?_⟩
    · rw [Handler.run_bind_ok hrun, Calls.outcome_cons_ok (by decide)]
      exact hrun'
    · rw [List.cons_append, play_descend hanswer, hplay, Calls.outcome_cons_ok (by decide)]
      split <;> rfl

theorem follows_nothing (v : Visitor σ ε) : v.Follows (return .descend) [] :=
  fun state => ⟨[], state, rfl, fun _ => rfl⟩

/-- A node is walked as its trace is played, provided that what is inside is. -/
theorem Follows.around {v : Visitor σ ε} {enterEvent leaveEvent : Event}
    {enter inside : Handler σ ε Flow} {leave : Handler σ ε Unit} {trace : List Event}
    (henter : v.call enterEvent = enter)
    (hleave : v.call leaveEvent = do
      leave
      return .descend)
    (hdepth : ∀ depth, leaveEvent.depthAfter depth = depth - 1)
    (hpass : v.PassedOver trace) (hinside : v.Follows inside trace) :
    v.Follows (Visitor.around enter inside leave)
      (enterEvent :: (trace ++ [leaveEvent])) := by
  have hbody := hinside.append (Follows.after hleave v.follows_nothing)
  intro state
  rcases hrun : enter.run state with ⟨failure | flow, next⟩
  · refine ⟨[(enterEvent, .error failure)], next, ?_, fun rest => ?_⟩
    · exact Handler.run_bind_error hrun _
    · exact play_error (by rw [henter, hrun]) _
  · have hcall : (v.call enterEvent).run state = (.ok flow, next) := by rw [henter, hrun]
    cases flow with
    | descend =>
        obtain ⟨calls, last, hrun', hplay⟩ := hbody next
        refine ⟨(enterEvent, .ok .descend) :: calls, last, ?_, fun rest => ?_⟩
        · rw [Calls.outcome_cons_ok (by decide), ← hrun']
          exact Handler.run_bind_ok hrun _
        · rw [List.cons_append, play_descend hcall, hplay, Calls.outcome_cons_ok (by decide)]
          split <;> rfl
    | skip =>
        refine ⟨[(enterEvent, .ok .skip)], next, ?_, fun rest => ?_⟩
        · exact Handler.run_bind_ok hrun _
        · -- the leave of this very node ends what is skipped
          rw [List.cons_append, play_skip hcall, List.append_assoc, hpass, List.singleton_append,
            play, hdepth]
          rfl
    | stop =>
        refine ⟨[(enterEvent, .ok .stop)], next, ?_, fun rest => ?_⟩
        · exact Handler.run_bind_ok hrun _
        · exact play_stop hcall _

theorem Follows.simples {v : Visitor σ ε} {walk : Handler σ ε Flow} {trace : List Event}
    (hwalk : v.Follows walk trace) (simples : List Simple) :
    v.Follows (do
      v.walkSimples simples
      walk) (simples.map .visit ++ trace) := by
  induction simples with
  | nil => exact hwalk
  | cons s simples ih =>
      simp only [walkSimples, bind_assoc]
      exact ih.after rfl

theorem follows_walkSimple (v : Visitor σ ε) (s : Simple) :
    v.Follows (do
      v.walkSimple s
      return .descend) [.visit s] :=
  Follows.after rfl v.follows_nothing

theorem follows_walkSequence (v : Visitor σ ε) (s : Sequence) :
    v.Follows (v.walkSequence s) s.trace := by
  induction s with
  | last simples =>
      -- inside there are only simple selectors
      have hinside := v.follows_nothing.simples simples
      rw [List.append_nil] at hinside
      exact hinside.around rfl rfl (fun _ => rfl) (v.passedOver_visits simples)
  | chained simples kind target ih =>
      -- inside, the combinator comes behind the simple selectors
      have hcombinator : v.Follows (v.walkCombinator ⟨kind, target⟩)
          (Combinator.trace ⟨kind, target⟩) :=
        ih.around rfl rfl (fun _ => rfl) (v.passedOver_sequence target)
      refine (hcombinator.simples simples).around rfl rfl (fun _ => rfl) ?_
      exact passedOver_append (v.passedOver_visits simples)
        (passedOver_node (fun _ => rfl) (fun _ => rfl) (v.passedOver_sequence target))

theorem follows_walkCombinator (v : Visitor σ ε) (c : Combinator) :
    v.Follows (v.walkCombinator c) c.trace :=
  (v.follows_walkSequence c.target).around rfl rfl (fun _ => rfl) (v.passedOver_sequence c.target)

theorem follows_walkSequences (v : Visitor σ ε) (sequences : List Sequence) :
    v.Follows (v.walkSequences sequences) (sequences.flatMap Sequence.trace) := by
  induction sequences with
  | nil => exact v.follows_nothing
  | cons s sequences ih => exact (v.follows_walkSequence s).append ih

theorem follows_walkGroup (v : Visitor σ ε) (g : Group) : v.Follows (v.walkGroup g) g.trace :=
  (v.follows_walkSequences g.sequences).around rfl rfl (fun _ => rfl)
    (v.passedOver_sequences g.sequences)

/-- A walk that follows a trace is the play of that trace. -/
theorem Follows.run_eq {v : Visitor σ ε} {walk : Handler σ ε Flow} {trace : List Event}
    (hwalk : v.Follows walk trace) (state : σ) :
    walk.run state = ((v.play 0 trace state).1.outcome, (v.play 0 trace state).2) := by
  obtain ⟨calls, last, hrun, hplay⟩ := hwalk state
  have hall : v.play 0 trace state = (calls, last) := by
    -- with nothing behind the trace, both cases of `hplay` end the same way
    have h := hplay []
    rw [List.append_nil] at h
    rw [h]
    split <;> simp [play]
  rw [hall, hrun]

end Visitor

end SelectorExplain
