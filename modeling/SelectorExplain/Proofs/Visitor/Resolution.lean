import SelectorExplain.Proofs.Visitor.Recording

set_option autoImplicit false

/-! # Which handler a call reaches

A call goes along a path of handlers, from the one for the kind of its node to the one for any
node, and reaches the first that is overridden (`Event.path`, `Visitor.first`). So each visitor
comes to the same as one that overrides all concrete handlers and no others: `Visitor.dispatched`
does in each of them what the first handler on the path does.

That the two walk alike is seen in three ways (`dispatched_go`): as handlers, their walks are equal;
the concrete handlers that they call are the same, with the same answers; and so are the handlers of
the visitor itself that are run, each with the node that it is handed. For the latter,
`Visitor.logging` makes every overridden handler write down its own name. -/

namespace SelectorExplain

/-! ## Handlers by name -/

/-- The handlers that a visitor may override. -/
inductive HandlerName where
  | enterGroup
  | leaveGroup
  | enterSequence
  | leaveSequence
  | enterKind (kind : CombinatorKind)
  | leaveKind (kind : CombinatorKind)
  | enterCombinator
  | leaveCombinator
  | visitKind (kind : SimpleKind)
  | visitSimple
  | enterNode
  | leaveNode
  | visitNode
  deriving DecidableEq, Repr

/-- Whether a handler is for one kind of node only. -/
def HandlerName.isConcrete : HandlerName → Bool
  | enterCombinator | leaveCombinator | visitSimple | enterNode | leaveNode | visitNode => false
  | _ => true

namespace Event

/-- The node that a call is about. -/
def node : Event → Node
  | enterGroup g | leaveGroup g => .group g
  | enterSequence s | leaveSequence s => .sequence s
  | enterKind _ c | leaveKind _ c => .combinator c
  | visitKind _ s => .simple s

/-- The kind of node that the called handler is for. -/
def kind : Event → NodeKind
  | enterGroup _ | leaveGroup _ => .group
  | enterSequence _ | leaveSequence _ => .sequence
  | enterKind kind _ | leaveKind kind _ => .combinator kind
  | visitKind kind _ => .simple kind

/-- The handlers that a call may reach: the concrete one, the category's if there is one, and the
    one for any node. -/
def path : Event → List HandlerName
  | enterGroup _ => [.enterGroup, .enterNode]
  | leaveGroup _ => [.leaveGroup, .leaveNode]
  | enterSequence _ => [.enterSequence, .enterNode]
  | leaveSequence _ => [.leaveSequence, .leaveNode]
  | enterKind kind _ => [.enterKind kind, .enterCombinator, .enterNode]
  | leaveKind kind _ => [.leaveKind kind, .leaveCombinator, .leaveNode]
  | visitKind kind _ => [.visitKind kind, .visitSimple, .visitNode]

end Event

namespace Handler

variable {σ ε α κ : Type}

/-- A handler with nothing to decide lets the walk go on. -/
def done (h : Handler σ ε Unit) : Handler σ ε Flow := do
  h
  return .descend

/-- A handler whose answer does not matter. -/
def unanswered (h : Handler σ ε α) : Handler σ ε Unit := do
  let _ ← h
  return ()

/-- Runs a handler and writes something down. -/
def noted (entry : κ) (h : Handler σ ε α) : Handler (σ × List κ) ε α :=
  ExceptT.mk fun (state, log) =>
    match h.run state with
    | (result, next) => (result, (next, log ++ [entry]))

theorem run_noted (entry : κ) (h : Handler σ ε α) (state : σ) (log : List κ) :
    (h.noted entry).run (state, log) =
      ((h.run state).1, (h.run state).2, log ++ [entry]) := rfl

theorem done_unanswered_done (h : Handler σ ε Unit) : h.done.unanswered.done = h.done := by
  simp [done, unanswered]

theorem noted_done (entry : κ) (h : Handler σ ε Unit) :
    (h.noted entry).done = h.done.noted entry := by
  funext ⟨state, log⟩
  -- either way the answer is replaced and the log has one entry more
  have hleft := run_andReturn (h.noted entry) Flow.descend (state, log)
  have hright := run_noted entry h.done state log
  rw [run_noted] at hleft
  rw [done, run_andReturn] at hright
  exact hleft.trans hright.symm

end Handler

namespace Visitor

variable {σ ε : Type}

/-- Whether a visitor overrides a handler. -/
def overrides (v : Visitor σ ε) : HandlerName → Bool
  | .enterGroup => v.enterGroup.isSome
  | .leaveGroup => v.leaveGroup.isSome
  | .enterSequence => v.enterSequence.isSome
  | .leaveSequence => v.leaveSequence.isSome
  | .enterKind kind => (v.enterKind kind).isSome
  | .leaveKind kind => (v.leaveKind kind).isSome
  | .enterCombinator => v.enterCombinator.isSome
  | .leaveCombinator => v.leaveCombinator.isSome
  | .visitKind kind => (v.visitKind kind).isSome
  | .visitSimple => v.visitSimple.isSome
  | .enterNode => v.enterNode.isSome
  | .leaveNode => v.leaveNode.isSome
  | .visitNode => v.visitNode.isSome

/-- What an overridden handler does with a node of its kind. -/
@[simp] def handler? (v : Visitor σ ε) : HandlerName → Node → Option (Handler σ ε Flow)
  | .enterGroup, .group g => v.enterGroup.map fun h => h g
  | .leaveGroup, .group g => v.leaveGroup.map fun h => (h g).done
  | .enterSequence, .sequence s => v.enterSequence.map fun h => h s
  | .leaveSequence, .sequence s => v.leaveSequence.map fun h => (h s).done
  | .enterKind kind, .combinator c => (v.enterKind kind).map fun h => h c
  | .leaveKind kind, .combinator c => (v.leaveKind kind).map fun h => (h c).done
  | .enterCombinator, .combinator c => v.enterCombinator.map fun h => h c
  | .leaveCombinator, .combinator c => v.leaveCombinator.map fun h => (h c).done
  | .visitKind kind, .simple s => (v.visitKind kind).map fun h => (h s).done
  | .visitSimple, n => v.visitSimple.map fun h => (h n).done
  | .enterNode, n => v.enterNode.map fun h => h n
  | .leaveNode, n => v.leaveNode.map fun h => (h n).done
  | .visitNode, n => v.visitNode.map fun h => (h n).done
  | _, _ => none

/-- What the first overridden handler along a path does, or nothing if there is none. -/
def firstAlong (v : Visitor σ ε) (path : List HandlerName) (n : Node) : Handler σ ε Flow :=
  (path.findSome? fun name => v.handler? name n).getD (pure .descend)

/-- What a call comes to. -/
def first (v : Visitor σ ε) (e : Event) : Handler σ ε Flow := v.firstAlong e.path e.node

/-- The visitor that overrides every concrete handler, by the first handler on its path. -/
def dispatched (v : Visitor σ ε) : Visitor σ ε where
  enterGroup := some fun g => v.first (.enterGroup g)
  leaveGroup := some fun g => (v.first (.leaveGroup g)).unanswered
  enterSequence := some fun s => v.first (.enterSequence s)
  leaveSequence := some fun s => (v.first (.leaveSequence s)).unanswered
  enterKind := fun kind => some fun c => v.first (.enterKind kind c)
  leaveKind := fun kind => some fun c => (v.first (.leaveKind kind c)).unanswered
  visitKind := fun kind => some fun s => (v.first (.visitKind kind s)).unanswered

theorem overrides_dispatched (v : Visitor σ ε) (name : HandlerName) :
    v.dispatched.overrides name = name.isConcrete := by
  cases name <;> rfl

/-! ## Calls -/

theorem firstAlong_cons (v : Visitor σ ε) (name : HandlerName) (path : List HandlerName)
    (n : Node) : v.firstAlong (name :: path) n =
      match v.handler? name n with
      | some handler => handler
      | none => v.firstAlong path n := by
  unfold firstAlong
  rw [List.findSome?_cons]
  cases v.handler? name n <;> rfl

theorem onEnterNode_eq (v : Visitor σ ε) (n : Node) :
    v.onEnterNode n = v.firstAlong [.enterNode] n := by
  rw [firstAlong_cons, handler?, onEnterNode]
  cases v.enterNode <;> rfl

theorem onLeaveNode_eq (v : Visitor σ ε) (n : Node) :
    (v.onLeaveNode n).done = v.firstAlong [.leaveNode] n := by
  rw [firstAlong_cons, handler?, onLeaveNode]
  cases v.leaveNode <;> rfl

theorem onVisitNode_eq (v : Visitor σ ε) (n : Node) :
    (v.onVisitNode n).done = v.firstAlong [.visitNode] n := by
  rw [firstAlong_cons, handler?, onVisitNode]
  cases v.visitNode <;> rfl

theorem onEnterCombinator_eq (v : Visitor σ ε) (c : Combinator) :
    v.onEnterCombinator c = v.firstAlong [.enterCombinator, .enterNode] (.combinator c) := by
  rw [firstAlong_cons, handler?, ← onEnterNode_eq, onEnterCombinator]
  cases v.enterCombinator <;> rfl

theorem onLeaveCombinator_eq (v : Visitor σ ε) (c : Combinator) :
    (v.onLeaveCombinator c).done =
      v.firstAlong [.leaveCombinator, .leaveNode] (.combinator c) := by
  rw [firstAlong_cons, handler?, ← onLeaveNode_eq, onLeaveCombinator]
  cases v.leaveCombinator <;> rfl

theorem onVisitSimple_eq (v : Visitor σ ε) (n : Node) :
    (v.onVisitSimple n).done = v.firstAlong [.visitSimple, .visitNode] n := by
  rw [firstAlong_cons, handler?, ← onVisitNode_eq, onVisitSimple]
  cases v.visitSimple <;> rfl

/-- A call comes to what the first overridden handler on its path does. -/
theorem call_eq_first (v : Visitor σ ε) (e : Event) : v.call e = v.first e := by
  -- along each path, one handler is looked at and the rest is as for the handler behind it
  cases e with
  | enterGroup g =>
      show v.onEnterGroup g = v.firstAlong [.enterGroup, .enterNode] (.group g)
      rw [firstAlong_cons, handler?, ← onEnterNode_eq, onEnterGroup]
      cases v.enterGroup <;> rfl
  | leaveGroup g =>
      show (v.onLeaveGroup g).done = v.firstAlong [.leaveGroup, .leaveNode] (.group g)
      rw [firstAlong_cons, handler?, ← onLeaveNode_eq, onLeaveGroup]
      cases v.leaveGroup <;> rfl
  | enterSequence s =>
      show v.onEnterSequence s = v.firstAlong [.enterSequence, .enterNode] (.sequence s)
      rw [firstAlong_cons, handler?, ← onEnterNode_eq, onEnterSequence]
      cases v.enterSequence <;> rfl
  | leaveSequence s =>
      show (v.onLeaveSequence s).done = v.firstAlong [.leaveSequence, .leaveNode] (.sequence s)
      rw [firstAlong_cons, handler?, ← onLeaveNode_eq, onLeaveSequence]
      cases v.leaveSequence <;> rfl
  | enterKind kind c =>
      show v.onEnterKind kind c =
        v.firstAlong [.enterKind kind, .enterCombinator, .enterNode] (.combinator c)
      rw [firstAlong_cons, handler?, ← onEnterCombinator_eq, onEnterKind]
      cases v.enterKind kind <;> rfl
  | leaveKind kind c =>
      show (v.onLeaveKind kind c).done =
        v.firstAlong [.leaveKind kind, .leaveCombinator, .leaveNode] (.combinator c)
      rw [firstAlong_cons, handler?, ← onLeaveCombinator_eq, onLeaveKind]
      cases v.leaveKind kind <;> rfl
  | visitKind kind s =>
      show (v.onVisitKind kind s).done =
        v.firstAlong [.visitKind kind, .visitSimple, .visitNode] (.simple s)
      rw [firstAlong_cons, handler?, ← onVisitSimple_eq, onVisitKind]
      cases v.visitKind kind <;> rfl

/-- The visitor that overrides every concrete handler answers each call as the visitor does. -/
theorem call_dispatched (v : Visitor σ ε) (e : Event) : v.dispatched.call e = v.call e := by
  -- a handler that has nothing to decide is turned into one and back
  have hunanswered (h : Handler σ ε Unit) (hh : h.done = v.first e) :
      (v.first e).unanswered.done = v.call e := by
    rw [call_eq_first, ← hh, Handler.done_unanswered_done]
  cases e with
  | enterGroup g => exact (call_eq_first v _).symm
  | leaveGroup g => exact hunanswered _ (call_eq_first v (.leaveGroup g))
  | enterSequence s => exact (call_eq_first v _).symm
  | leaveSequence s => exact hunanswered _ (call_eq_first v (.leaveSequence s))
  | enterKind kind c => exact (call_eq_first v _).symm
  | leaveKind kind c => exact hunanswered _ (call_eq_first v (.leaveKind kind c))
  | visitKind kind s => exact hunanswered _ (call_eq_first v (.visitKind kind s))

theorem play_congr {v w : Visitor σ ε} (h : ∀ e, w.call e = v.call e) (trace : List Event) :
    ∀ (skipped : Nat) (state : σ), w.play skipped trace state = v.play skipped trace state := by
  induction trace with
  | nil =>
      intro skipped state
      cases skipped <;> rfl
  | cons e rest ih =>
      intro skipped state
      cases skipped with
      | succ skipped => exact ih _ state
      | zero => simp only [play, h, ih]

/-! ## Logging -/

/-- The visitor that does the same and writes down which of its handlers are run, each with the node
    that it is handed. -/
def logging (v : Visitor σ ε) : Visitor (σ × List (HandlerName × Node)) ε where
  enterGroup := v.enterGroup.map fun h g => (h g).noted (.enterGroup, .group g)
  leaveGroup := v.leaveGroup.map fun h g => (h g).noted (.leaveGroup, .group g)
  enterSequence := v.enterSequence.map fun h s => (h s).noted (.enterSequence, .sequence s)
  leaveSequence := v.leaveSequence.map fun h s => (h s).noted (.leaveSequence, .sequence s)
  enterKind := fun kind =>
    (v.enterKind kind).map fun h c => (h c).noted (.enterKind kind, .combinator c)
  leaveKind := fun kind =>
    (v.leaveKind kind).map fun h c => (h c).noted (.leaveKind kind, .combinator c)
  enterCombinator := v.enterCombinator.map fun h c =>
    (h c).noted (.enterCombinator, .combinator c)
  leaveCombinator := v.leaveCombinator.map fun h c =>
    (h c).noted (.leaveCombinator, .combinator c)
  visitKind := fun kind =>
    (v.visitKind kind).map fun h s => (h s).noted (.visitKind kind, .simple s)
  visitSimple := v.visitSimple.map fun h n => (h n).noted (.visitSimple, n)
  enterNode := v.enterNode.map fun h n => (h n).noted (.enterNode, n)
  leaveNode := v.leaveNode.map fun h n => (h n).noted (.leaveNode, n)
  visitNode := v.visitNode.map fun h n => (h n).noted (.visitNode, n)

/-- The handler that a call reaches, with the node that it is handed. -/
def reaches (v : Visitor σ ε) (e : Event) : Option (HandlerName × Node) :=
  (e.path.find? v.overrides).map fun name => (name, e.node)

theorem handler?_logging (v : Visitor σ ε) (name : HandlerName) (n : Node) :
    v.logging.handler? name n = (v.handler? name n).map (Handler.noted (name, n)) := by
  cases name <;> cases n <;>
    simp [handler?, logging, Function.comp_def, Handler.noted_done]

/-- The handlers on a path are for the node of the call. -/
theorem isSome_handler? (v : Visitor σ ε) (e : Event) :
    ∀ name ∈ e.path, (v.handler? name e.node).isSome = v.overrides name := by
  cases e <;> simp [Event.path, Event.node, handler?, overrides]

/-- Along a path the first overridden handler is run, and this is written down. -/
theorem run_firstAlong_logging (v : Visitor σ ε) (n : Node) {path : List HandlerName}
    (hpath : ∀ name ∈ path, (v.handler? name n).isSome = v.overrides name) (state : σ)
    (log : List (HandlerName × Node)) :
    (v.logging.firstAlong path n).run (state, log) =
      (((v.firstAlong path n).run state).1, ((v.firstAlong path n).run state).2,
        log ++ ((path.find? v.overrides).map fun name => (name, n)).toList) := by
  induction path with
  | nil => rw [List.find?_nil, Option.map_none, Option.toList_none, List.append_nil]; rfl
  | cons name path ih =>
      obtain ⟨hname, hpath⟩ := List.forall_mem_cons.1 hpath
      rw [firstAlong_cons, firstAlong_cons, handler?_logging, List.find?_cons, ← hname]
      cases v.handler? name n with
      | none => exact ih hpath
      | some handler => exact Handler.run_noted (name, n) handler state log

theorem annotates_logging (v : Visitor σ ε) :
    v.Annotates (fun e _ => (v.reaches e).toList) v.logging := by
  intro e state log
  rw [call_eq_first, call_eq_first]
  exact v.run_firstAlong_logging e.node (v.isSome_handler? e) state log

end Visitor

/-! ## Walks -/

/-- In a walk each node is handled as what it is. -/
theorem Sequence.kind_node_of_mem (s : Sequence) : ∀ e ∈ s.trace, e.node.kind = e.kind := by
  have hvisits (simples : List Simple) : ∀ e ∈ simples.map Event.visit, e.node.kind = e.kind := by
    intro e he
    obtain ⟨simple, -, rfl⟩ := List.mem_map.1 he
    rfl
  induction s with
  | last simples =>
      rw [Sequence.trace, List.forall_mem_cons, List.forall_mem_append]
      exact ⟨rfl, hvisits simples, List.forall_mem_singleton.2 rfl⟩
  | chained simples kind target ih =>
      rw [Sequence.trace, List.forall_mem_cons, List.forall_mem_append, List.forall_mem_append,
        List.forall_mem_cons, List.forall_mem_append]
      -- the combinator is written with the kind that it has
      exact ⟨rfl, ⟨hvisits simples, rfl, ih, List.forall_mem_singleton.2 rfl⟩,
        List.forall_mem_singleton.2 rfl⟩

theorem Combinator.kind_node_of_mem (c : Combinator) : ∀ e ∈ c.trace, e.node.kind = e.kind := by
  rw [Combinator.trace, List.forall_mem_cons, List.forall_mem_append]
  exact ⟨rfl, c.target.kind_node_of_mem, List.forall_mem_singleton.2 rfl⟩

theorem Group.kind_node_of_mem (g : Group) : ∀ e ∈ g.trace, e.node.kind = e.kind := by
  rw [Group.trace, List.forall_mem_cons, List.forall_mem_append]
  refine ⟨rfl, ?_, List.forall_mem_singleton.2 rfl⟩
  intro e he
  obtain ⟨s, -, hs⟩ := List.mem_flatMap.1 he
  exact s.kind_node_of_mem e hs

/-- Where a walk starts, and whether it is for its effect only. -/
inductive Walk where
  | whole (g : Group)
  | group (g : Group)
  | sequence (s : Sequence)
  | combinator (c : Combinator)
  | simple (s : Simple)
  deriving DecidableEq, Repr

namespace Walk

/-- The full trace of a walk. -/
def trace : Walk → List Event
  | whole g | group g => g.trace
  | sequence s => s.trace
  | combinator c => c.trace
  | simple s => [.visit s]

/-- What a walk answers, by the outcome of its calls. For a walk for its effect it does not matter
    whether it has been stopped. -/
def answer {ε : Type} : Walk → Except ε Flow → Except ε Flow
  | whole _, outcome => outcome.map fun _ => .descend
  | _, outcome => outcome

theorem kind_node_of_mem (w : Walk) : ∀ e ∈ w.trace, e.node.kind = e.kind := by
  cases w with
  | whole g => exact g.kind_node_of_mem
  | group g => exact g.kind_node_of_mem
  | sequence s => exact s.kind_node_of_mem
  | combinator c => exact c.kind_node_of_mem
  | simple s => exact List.forall_mem_singleton.2 rfl

end Walk

namespace Visitor

variable {σ ε : Type}

/-- Goes on a walk. One that answers nothing is taken to answer `descend`. -/
def go (v : Visitor σ ε) : Walk → Handler σ ε Flow
  | .whole g => (v.walk g).done
  | .group g => v.walkGroup g
  | .sequence s => v.walkSequence s
  | .combinator c => v.walkCombinator c
  | .simple s => (v.walkSimple s).done

/-- Each walk is a play of its full trace. -/
theorem run_go (v : Visitor σ ε) (w : Walk) (state : σ) :
    (v.go w).run state =
      (w.answer (v.play 0 w.trace state).1.outcome, (v.play 0 w.trace state).2) := by
  cases w with
  | whole g =>
      -- the answer is dropped, and then taken to be `descend`
      have hwalk : (v.walk g).run state =
          ((v.play 0 g.trace state).1.outcome.map fun _ => (), (v.play 0 g.trace state).2) := by
        rw [walk, Handler.run_andReturn, (v.follows_walkGroup g).run_eq]
      have hwhole := Handler.run_andReturn (v.walk g) Flow.descend state
      rw [hwalk] at hwhole
      refine hwhole.trans ?_
      rw [Walk.trace]
      cases (v.play 0 g.trace state).1.outcome <;> rfl
  | group g => exact (v.follows_walkGroup g).run_eq state
  | sequence s => exact (v.follows_walkSequence s).run_eq state
  | combinator c => exact (v.follows_walkCombinator c).run_eq state
  | simple s => exact (v.follows_walkSimple s).run_eq state

/-- Visitors that answer each call alike walk alike. -/
theorem go_congr {v w : Visitor σ ε} (h : ∀ e, w.call e = v.call e) (walk : Walk) :
    w.go walk = v.go walk := by
  funext state
  have hrun := run_go w walk state
  rw [play_congr h] at hrun
  exact hrun.trans (run_go v walk state).symm

theorem run_go_annotates {α : Type} {v : Visitor σ ε} {note : Event → Except ε Flow → List α}
    {w : Visitor (σ × List α) ε} (h : v.Annotates note w) (walk : Walk) (state : σ) :
    (w.go walk).run (state, []) =
      (((v.go walk).run state).1, ((v.go walk).run state).2,
        (v.play 0 walk.trace state).1.flatMap fun c => note c.1 c.2) := by
  rw [run_go, run_go, h.play_eq, List.nil_append]

/-- **Handlers are resolved as if all were overridden.** A visitor walks as the one that overrides
    every concrete handler by the first one on its path: with the same result and the same state,
    the same calls of concrete handlers, and the same runs of its own handlers on the same nodes.
    Those are the ones that its calls reach, each with a node of the kind that has been called for.
    -/
theorem dispatched_go (v : Visitor σ ε) (w : Walk) :
    (∀ name, v.dispatched.overrides name = name.isConcrete) ∧
      v.dispatched.go w = v.go w ∧
      v.logging.dispatched.go w = v.logging.go w ∧
      (∀ state, (v.dispatched.recording.go w).run (state, []) =
        (v.recording.go w).run (state, [])) ∧
      (∀ state, (v.logging.go w).run (state, []) =
        (((v.go w).run state).1, ((v.go w).run state).2,
          (v.play 0 w.trace state).1.filterMap fun c => v.reaches c.1)) ∧
      ∀ e ∈ w.trace, e.node.kind = e.kind := by
  have hgo := go_congr v.call_dispatched w
  refine ⟨v.overrides_dispatched, hgo, go_congr v.logging.call_dispatched w, ?_, ?_,
    w.kind_node_of_mem⟩
  · intro state
    rw [run_go_annotates v.dispatched.annotates_recording, run_go_annotates v.annotates_recording,
      hgo, play_congr v.call_dispatched]
  · intro state
    rw [run_go_annotates v.annotates_logging, List.filterMap_eq_flatMap_toList]

end Visitor

end SelectorExplain
