import SelectorExplain.Proofs.Explainer.Reachable
import SelectorExplain.Proofs.Explainer.Rendering
import SelectorExplain.Proofs.Visitor.Recording

set_option autoImplicit false

/-! # Which calls an explainer refuses

The *history* of an explainer lists the handler calls since it was last cleared, those that walks
have made among them, each with its answer. `History.answer` says from the history alone what any
further call answers: a leave is refused when every entered node has been left, a group when
anything has been added, and a general handler always.

The history accounts for the explainer (`Tally`): as many elements are open as have been entered and
not left, and the document holds something as soon as something has been added. Each handler keeps
the account (`answers_event`), so that walks keep it, and any calls (`tally_history`). -/

namespace SelectorExplain

open SelectorExplain.Tree

/-! ## Histories -/

namespace Call

/-- Whether a call is one of a handler for entering a node. -/
def isEnter : Call → Bool
  | event (.enterGroup _) | event (.enterSequence _) | event (.enterKind _ _) => true
  | enterCombinator _ | enterNode _ => true
  | _ => false

/-- Whether a call is one of a handler for leaving a node. -/
def isLeave : Call → Bool
  | event (.leaveGroup _) | event (.leaveSequence _) | event (.leaveKind _ _) => true
  | leaveCombinator _ | leaveNode _ => true
  | _ => false

/-- Whether a call is one of a handler for visiting a simple selector. -/
def isVisit : Call → Bool
  | event (.visitKind _ _) | visitSimple _ | visitNode _ => true
  | _ => false

end Call

/-- Handler calls in the order in which they were made, each with its answer. -/
abbrev History := List (Call × Except ExplainError Flow)

namespace History

/-- The number of nodes that have been entered. -/
def enters (h : History) : Nat := h.countP fun c => c.1.isEnter && c.2.isOk

/-- The number of nodes that have been left. -/
def leaves (h : History) : Nat := h.countP fun c => c.1.isLeave && c.2.isOk

/-- Whether something has been added: every node that is entered or visited adds its element. -/
def adds (h : History) : Bool := h.any fun c => (c.1.isEnter || c.1.isVisit) && c.2.isOk

/-- What entering a group answers. -/
def enteringGroup (h : History) : Except ExplainError Flow :=
  if h.adds then .error .notCleared else .ok .descend

/-- What leaving a node answers. -/
def leaving (h : History) (kind : NodeKind) : Except ExplainError Flow :=
  if h.enters = h.leaves then .error (.unbalancedLeave kind) else .ok .descend

/-- What a call answers behind a history. -/
def answer (h : History) : Call → Except ExplainError Flow
  | .event (.enterGroup _) | .walk _ | .walkGroup _ => h.enteringGroup
  | .event (.leaveGroup _) => h.leaving .group
  | .event (.leaveSequence _) => h.leaving .sequence
  | .event (.leaveKind _ c) | .leaveCombinator c => h.leaving (.combinator c.kind)
  | .visitSimple n | .enterNode n | .leaveNode n | .visitNode n => .error (.unsupported n.kind)
  | .event (.enterSequence _) | .event (.enterKind _ _) | .enterCombinator _ => .ok .descend
  | .event (.visitKind _ _) => .ok .descend
  | .walkSequence _ | .walkCombinator _ | .walkSimple _ => .ok .descend
  | .clear => .ok .descend

/-- Calls of concrete handlers as a history. -/
def ofCalls (calls : Calls ExplainError) : History := calls.map fun c => (.event c.1, c.2)

end History

namespace Explainer

/-- The handler calls that something done with an explainer comes to. A walk is recorded for
    that. -/
def made (x : Explainer) : Call → History
  | .clear => []
  | .walk g => .ofCalls ((visitor.recording.walk g).run (x, [])).2.2
  | .walkGroup g => .ofCalls ((visitor.recording.walkGroup g).run (x, [])).2.2
  | .walkSequence s => .ofCalls ((visitor.recording.walkSequence s).run (x, [])).2.2
  | .walkCombinator c => .ofCalls ((visitor.recording.walkCombinator c).run (x, [])).2.2
  | .walkSimple s => .ofCalls ((visitor.recording.walkSimple s).run (x, [])).2.2
  | handler => [(handler, ((visitor.perform handler).run x).1)]

/-- The history behind a call. Clearing starts a new one. -/
def extend (x : Explainer) (h : History) : Call → History
  | .clear => []
  | c => h ++ x.made c

/-- The history of an explainer that some calls have been made of, when it has one already. -/
def historyFrom : Explainer → History → List Call → History
  | _, h, [] => h
  | x, h, c :: calls => historyFrom (x.after c) (x.extend h c) calls

/-- The history of an explainer that was new before some calls. -/
def history (layout : Layout) (calls : List Call) : History := historyFrom { layout } [] calls

end Explainer

namespace History

variable (h later : History) (c : Call) (flow : Flow) (e : ExplainError)

@[simp] theorem enters_append : (h ++ later).enters = h.enters + later.enters :=
  List.countP_append

@[simp] theorem leaves_append : (h ++ later).leaves = h.leaves + later.leaves :=
  List.countP_append

@[simp] theorem adds_append : (h ++ later).adds = (h.adds || later.adds) :=
  List.any_append

/-- A refused call counts for nothing. -/
@[simp] theorem enters_error : enters [(c, .error e)] = 0 := by
  simp [enters, Except.isOk, Except.toBool]

@[simp] theorem leaves_error : leaves [(c, .error e)] = 0 := by
  simp [leaves, Except.isOk, Except.toBool]

@[simp] theorem adds_error : adds [(c, .error e)] = false := by
  simp [adds, Except.isOk, Except.toBool]

@[simp] theorem enters_ok : enters [(c, .ok flow)] = c.isEnter.toNat := by
  cases h : c.isEnter <;> simp [enters, Except.isOk, Except.toBool, h]

@[simp] theorem leaves_ok : leaves [(c, .ok flow)] = c.isLeave.toNat := by
  cases h : c.isLeave <;> simp [leaves, Except.isOk, Except.toBool, h]

@[simp] theorem adds_ok : adds [(c, .ok flow)] = (c.isEnter || c.isVisit) := by
  simp [adds, Except.isOk, Except.toBool]

theorem ofCalls_concat (calls : Calls ExplainError) (event : Event)
    (answer : Except ExplainError Flow) :
    ofCalls (calls ++ [(event, answer)]) = ofCalls calls ++ [(.event event, answer)] := by
  rw [ofCalls, ofCalls, List.map_append]
  rfl

end History

/-! ## The account -/

/-- What has been entered and not left is open, and something has been added if there is a
    document. -/
structure Tally (h : History) (height : Nat) (ts : List Tree) : Prop where
  hasSpine : HasSpine height ts
  opened : h.enters = height + h.leaves
  added : h.adds = true ↔ ts ≠ []

/-- Nothing has been entered, and nothing added, when nothing has been called. -/
theorem tally_nil : Tally [] 0 [] where
  hasSpine := .zero []
  opened := rfl
  added := iff_of_false Bool.false_ne_true fun hne => hne rfl

namespace Tally

variable {h : History} {height : Nat} {ts : List Tree}

theorem enteringGroup_of_ne_nil (htally : Tally h height ts) (hts : ts ≠ []) :
    h.enteringGroup = .error .notCleared :=
  if_pos (htally.added.2 hts)

theorem enteringGroup_nil (htally : Tally h height []) : h.enteringGroup = .ok .descend :=
  if_neg fun hadds => htally.added.1 hadds rfl

theorem leaving_zero (htally : Tally h 0 ts) (kind : NodeKind) :
    h.leaving kind = .error (.unbalancedLeave kind) :=
  if_pos (by simpa using htally.opened)

theorem leaving_succ (htally : Tally h (height + 1) ts) (kind : NodeKind) :
    h.leaving kind = .ok .descend := by
  refine if_neg ?_
  have hopened := htally.opened
  omega

end Tally

namespace Explainer

/-- What a call answers behind a history; the history with the call tallies again; and a refusal
    changes nothing. -/
structure Answers (h : History) (x : Explainer) (c : Call) : Prop where
  answer : ((visitor.perform c).run x).1 = h.answer c
  tally : (x.after c).Built (Tally (x.extend h c))
  refused : ∀ e, h.answer c = .error e → x.after c = x

/-- A call that goes into the history as it is. -/
def Noted (h : History) (x : Explainer) (c : Call) : Prop :=
  x.extend h c = h ++ [(c, ((visitor.perform c).run x).1)]

variable {h : History} {c : Call} {layout : Layout} {height : Nat} {ts us : List Tree}

/-- A call that succeeds, when the history with it tallies. -/
theorem answers_ok {x : Explainer} (hrun : ((visitor.perform c).run x).1 = .ok .descend)
    (hanswer : h.answer c = .ok .descend) (htally : (x.after c).Built (Tally (x.extend h c))) :
    Answers h x c where
  answer := by rw [hrun, hanswer]
  tally := htally
  refused := by
    intro e he
    rw [hanswer] at he
    cases he

/-! ## One handler -/

theorem answers_refused (htally : Tally h height ts) {e : ExplainError}
    (hrun : (visitor.perform c).run (ofForest layout height ts) =
      (.error e, ofForest layout height ts))
    (hnoted : Noted h (ofForest layout height ts) c) (hanswer : h.answer c = .error e) :
    Answers h (ofForest layout height ts) c where
  answer := by rw [hrun, hanswer]
  tally := by
    rw [hnoted, after, hrun]
    exact built_ofForest layout ⟨htally.hasSpine, by simpa using htally.opened,
      by simpa using htally.added⟩
  refused := by
    intro _ _
    rw [after, hrun]

theorem answers_entered (htally : Tally h height ts) (hus : HasSpine (height + 1) us)
    (hrun : (visitor.perform c).run (ofForest layout height ts) =
      (.ok .descend, ofForest layout (height + 1) us))
    (hnoted : Noted h (ofForest layout height ts) c) (hanswer : h.answer c = .ok .descend)
    (henter : c.isEnter = true) (hleave : c.isLeave = false) :
    Answers h (ofForest layout height ts) c := by
  refine answers_ok (congrArg Prod.fst hrun) hanswer ?_
  rw [hnoted, after, hrun]
  refine built_ofForest layout ⟨hus, ?_, ?_⟩
  · simp [htally.opened, henter, hleave]
    omega
  · simp [henter, hus.ne_nil]

theorem answers_visited (htally : Tally h height ts) (hus : HasSpine height us) (hne : us ≠ [])
    (hrun : (visitor.perform c).run (ofForest layout height ts) =
      (.ok .descend, ofForest layout height us))
    (hnoted : Noted h (ofForest layout height ts) c) (hanswer : h.answer c = .ok .descend)
    (hvisit : c.isVisit = true) (henter : c.isEnter = false) (hleave : c.isLeave = false) :
    Answers h (ofForest layout height ts) c := by
  refine answers_ok (congrArg Prod.fst hrun) hanswer ?_
  rw [hnoted, after, hrun]
  refine built_ofForest layout ⟨hus, ?_, ?_⟩
  · simp [htally.opened, henter, hleave]
  · simp [hvisit, hne]

/-- Leaving is refused when nothing is open, which is when as much has been left as entered. -/
theorem answers_left (htally : Tally h height ts) (kind : NodeKind)
    (hperform : visitor.perform c = do
      close kind
      return .descend)
    (hnoted : Noted h (ofForest layout height ts) c) (hanswer : h.answer c = h.leaving kind)
    (henter : c.isEnter = false) (hvisit : c.isVisit = false) (hleave : c.isLeave = true) :
    Answers h (ofForest layout height ts) c := by
  cases height with
  | zero =>
      refine answers_refused htally ?_ hnoted (hanswer.trans (htally.leaving_zero kind))
      rw [hperform]
      rfl
  | succ height =>
      have hrun : (visitor.perform c).run (ofForest layout (height + 1) ts) =
          (.ok .descend, ofForest layout height ts) := by
        rw [hperform, Handler.run_bind_ok (close_ofForest layout htally.hasSpine kind)]
        rfl
      refine answers_ok (congrArg Prod.fst hrun) (hanswer.trans (htally.leaving_succ kind)) ?_
      rw [hnoted, after, hrun]
      refine built_ofForest layout ⟨htally.hasSpine.of_succ, ?_, ?_⟩
      · simp [htally.opened, henter, hleave]
        omega
      · simpa [henter, hvisit] using htally.added

/-! ## Groups -/

theorem run_enterGroup_begun (hts : ts ≠ []) :
    enterGroup.run (ofForest layout height ts) =
      (.error .notCleared, ofForest layout height ts) := by
  rw [enterGroup_run]
  exact if_neg fun hempty => hts (isEmpty_ofForest.1 hempty)

theorem answers_enterGroup (htally : Tally h height ts) (g : Group) :
    Answers h (ofForest layout height ts) (.event (.enterGroup g)) := by
  by_cases hts : ts = []
  · subst hts
    obtain rfl := htally.hasSpine.eq_zero
    exact answers_entered htally (.succ [] _ _ _ (.zero [])) (run_enterGroup_empty layout) rfl
      htally.enteringGroup_nil rfl rfl
  · exact answers_refused htally (run_enterGroup_begun hts) rfl
      (htally.enteringGroup_of_ne_nil hts)

/-! ## Concrete handlers -/

theorem answers_enter (htally : Tally h height ts) (tag : Tag) (content : String)
    (hperform : visitor.perform c = enter tag content)
    (hnoted : Noted h (ofForest layout height ts) c) (hanswer : h.answer c = .ok .descend)
    (henter : c.isEnter = true) (hleave : c.isLeave = false) :
    Answers h (ofForest layout height ts) c := by
  have hrun := run_enter layout htally.hasSpine tag content
  rw [← hperform] at hrun
  exact answers_entered htally (htally.hasSpine.graft_succ _) hrun hnoted hanswer henter hleave

theorem answers_visit (htally : Tally h height ts) (s : Simple)
    (hperform : visitor.perform c = do
      visitSimple s
      return .descend)
    (hnoted : Noted h (ofForest layout height ts) c) (hanswer : h.answer c = .ok .descend)
    (hvisit : c.isVisit = true) (henter : c.isEnter = false) (hleave : c.isLeave = false) :
    Answers h (ofForest layout height ts) c := by
  have hrun : (visitor.perform c).run (ofForest layout height ts) =
      (.ok .descend, ofForest layout height (graft height [s.explanation] ts)) := by
    rw [hperform, Handler.run_bind_ok (run_visitSimple layout htally.hasSpine s)]
    rfl
  exact answers_visited htally (htally.hasSpine.graft _) (htally.hasSpine.graft_succ _).ne_nil hrun
    hnoted hanswer hvisit henter hleave

theorem answers_event {x : Explainer} (hx : x.Built (Tally h)) (e : Event) :
    Answers h x (.event e) := by
  obtain ⟨layout, height, ts, htally, rfl⟩ := hx
  cases e with
  | enterGroup g => exact answers_enterGroup htally g
  | leaveGroup g => exact answers_left htally .group rfl rfl rfl rfl rfl rfl
  | enterSequence s =>
      have hgrafted := htally.hasSpine.graft (ofForest layout height ts).separators
      exact answers_entered htally (hgrafted.graft_succ _)
        (run_enterSequence layout htally.hasSpine) rfl rfl rfl rfl
  | leaveSequence s => exact answers_left htally .sequence rfl rfl rfl rfl rfl rfl
  | enterKind kind c => exact answers_enter htally _ _ rfl rfl rfl rfl rfl
  | leaveKind kind c => exact answers_left htally _ rfl rfl rfl rfl rfl rfl
  | visitKind kind s => exact answers_visit htally s rfl rfl rfl rfl rfl rfl

/-! ## Walks -/

/-- The calls of a walk go into the history one after the other. -/
theorem tally_follows {x : Explainer} (hx : x.Built (Tally h))
    {walk : Handler Explainer ExplainError Flow}
    {recorded : Handler (Explainer × Calls ExplainError) ExplainError Flow} {trace : List Event}
    (hwalk : visitor.Follows walk trace) (hrecorded : visitor.recording.Follows recorded trace) :
    (walk.run x).2.Built (Tally (h ++ .ofCalls (recorded.run (x, [])).2.2)) := by
  have hcall : ∀ e (s : Explainer × Calls ExplainError), s.1.Built (Tally (h ++ .ofCalls s.2)) →
      ((visitor.recording.call e).run s).2.1.Built
        (Tally (h ++ .ofCalls ((visitor.recording.call e).run s).2.2)) := by
    rintro e ⟨y, calls⟩ hy
    have hrun : (visitor.call e).run y = (((visitor.call e).run y).1, ((visitor.call e).run y).2) :=
      rfl
    rw [Visitor.call_recording hrun calls, History.ofCalls_concat, ← List.append_assoc]
    exact (answers_event hy e).tally
  have hplay := Visitor.play_invariant (v := visitor.recording)
    (fun s => s.1.Built (Tally (h ++ .ofCalls s.2))) hcall trace 0 (x, [])
    (by simpa [History.ofCalls] using hx)
  rw [Visitor.play_recording] at hplay
  rw [hrecorded.run_eq, hwalk.run_eq, Visitor.play_recording]
  exact hplay

theorem run_walkGroup_begun (hts : ts ≠ []) (g : Group) :
    (visitor.walkGroup g).run (ofForest layout height ts) =
      (.error .notCleared, ofForest layout height ts) :=
  Handler.run_bind_error (run_enterGroup_begun hts) _

theorem run_walk_begun (hts : ts ≠ []) (g : Group) :
    (visitor.walk g).run (ofForest layout height ts) =
      (.error .notCleared, ofForest layout height ts) :=
  Handler.run_bind_error (run_walkGroup_begun hts g) _

/-- A walk of a group, like entering one, is refused when there is something. -/
theorem answers_walk (htally : Tally h height ts) (hanswer : h.answer c = h.enteringGroup)
    (hbegun : ts ≠ [] → (visitor.perform c).run (ofForest layout height ts) =
      (.error .notCleared, ofForest layout height ts))
    (hempty : ((visitor.perform c).run (ofForest layout 0 [])).1 = .ok .descend)
    (hextend : ((ofForest layout height ts).after c).Built
      (Tally ((ofForest layout height ts).extend h c))) :
    Answers h (ofForest layout height ts) c := by
  by_cases hts : ts = []
  · subst hts
    obtain rfl := htally.hasSpine.eq_zero
    exact answers_ok hempty (hanswer.trans htally.enteringGroup_nil) hextend
  · refine ⟨?_, hextend, fun e _ => ?_⟩
    · rw [hbegun hts, hanswer, htally.enteringGroup_of_ne_nil hts]
    · rw [after, hbegun hts]

/-- **Each call answers as the history says**, whatever the call. -/
theorem answers_perform {x : Explainer} (hx : x.Built (Tally h)) (c : Call) : Answers h x c := by
  obtain ⟨layout, height, ts, htally, rfl⟩ := hx
  have hbuilt := built_ofForest layout htally
  cases c with
  | clear => exact ⟨rfl, built_ofForest layout tally_nil, nofun⟩
  | event e => exact answers_event hbuilt e
  | enterCombinator c => exact answers_enter htally _ _ rfl rfl rfl rfl rfl
  | leaveCombinator c => exact answers_left htally _ rfl rfl rfl rfl rfl rfl
  | visitSimple n => exact answers_refused htally rfl rfl rfl
  | enterNode n => exact answers_refused htally rfl rfl rfl
  | leaveNode n => exact answers_refused htally rfl rfl rfl
  | visitNode n => exact answers_refused htally rfl rfl rfl
  | walk g =>
      refine answers_walk htally rfl (fun hts => ?_) ?_ ?_
      · exact Handler.run_bind_error (run_walk_begun hts g) _
      · rw [Visitor.perform, Handler.run_bind_ok (run_walk_empty layout g)]
        rfl
      · rw [after, Visitor.perform, Handler.run_andReturn_snd, Visitor.run_walk_snd, extend, made,
          Visitor.run_walk_snd]
        · exact tally_follows hbuilt (visitor.follows_walkGroup g)
            (visitor.recording.follows_walkGroup g)
        · simp
  | walkGroup g =>
      refine answers_walk htally rfl (fun hts => run_walkGroup_begun hts g) ?_ ?_
      · exact congrArg Prod.fst (run_walkGroup_empty layout g)
      · exact tally_follows hbuilt (visitor.follows_walkGroup g)
          (visitor.recording.follows_walkGroup g)
  | walkSequence s =>
      have hrun := rendersSequence_walkSequence s layout htally.hasSpine
      refine answers_ok (congrArg Prod.fst hrun) rfl ?_
      exact tally_follows hbuilt (visitor.follows_walkSequence s)
        (visitor.recording.follows_walkSequence s)
  | walkCombinator c =>
      have hrun := run_walkCombinatorTo layout htally.hasSpine c
        (rendersSequence_walkSequence c.target)
      refine answers_ok (congrArg Prod.fst hrun) rfl ?_
      exact tally_follows hbuilt (visitor.follows_walkCombinator c)
        (visitor.recording.follows_walkCombinator c)
  | walkSimple s =>
      have hrun := run_walkSimple layout htally.hasSpine s
      have hperform : (visitor.perform (.walkSimple s)).run (ofForest layout height ts) =
          (.ok .descend, ofForest layout height (graft height [s.explanation] ts)) := by
        rw [Visitor.perform, Handler.run_bind_ok hrun]
        rfl
      have hwritten := tally_follows hbuilt (visitor.follows_walkSimple s)
        (visitor.recording.follows_walkSimple s)
      rw [Handler.run_andReturn_snd (visitor.recording.walkSimple s)] at hwritten
      exact answers_ok (congrArg Prod.fst hperform) rfl hwritten

/-! ## Any calls -/

theorem tally_historyFrom {x : Explainer} (hx : x.Built (Tally h)) (calls : List Call) :
    (calls.foldl after x).Built (Tally (historyFrom x h calls)) := by
  induction calls generalizing x h with
  | nil => exact hx
  | cons c calls ih => exact ih (answers_perform hx c).tally

theorem tally_history (layout : Layout) (calls : List Call) :
    (reached layout calls).Built (Tally (history layout calls)) :=
  tally_historyFrom (built_ofForest layout tally_nil) calls

/-- A group that has been walked, or refused, leaves something behind. -/
theorem after_walk (hspine : HasSpine height ts) (g : Group) :
    ∃ height' us, us ≠ [] ∧
      (ofForest layout height ts).after (.walk g) = ofForest layout height' us := by
  by_cases hts : ts = []
  · subst hts
    obtain rfl := hspine.eq_zero
    refine ⟨0, [g.explanation], by simp, ?_⟩
    rw [after, Visitor.perform, Handler.run_andReturn_snd, run_walk_empty]
  · refine ⟨height, ts, hts, ?_⟩
    rw [after, Visitor.perform, Handler.run_andReturn_snd, run_walk_begun hts]

/-- **What an explainer refuses.** After any calls, the history since the explainer was last cleared
    says what every further call answers, and a call that is refused changes nothing. Something has
    been added exactly when the document has elements; so once a group has been walked, another one
    is refused, and what is there stays as it is. -/
theorem reached_answers (layout : Layout) (calls : List Call) :
    (∀ c, ((visitor.perform c).run (reached layout calls)).1 = (history layout calls).answer c) ∧
    (∀ c e, (history layout calls).answer c = .error e →
      (reached layout calls).after c = reached layout calls) ∧
    ((history layout calls).adds = true ↔ 0 < (reached layout calls).document.size) ∧
    (∀ first second : Group,
      (visitor.walk second).run ((reached layout calls).after (.walk first)) =
        (.error .notCleared, (reached layout calls).after (.walk first))) := by
  have hbuilt := tally_history layout calls
  refine ⟨fun c => (answers_perform hbuilt c).answer, fun c => (answers_perform hbuilt c).refused,
    ?_, fun first second => ?_⟩
  · obtain ⟨layout', height, ts, htally, hx⟩ := hbuilt
    rw [htally.added, hx]
    cases ts with
    | nil => exact iff_of_false (fun hne => hne rfl) (Nat.lt_irrefl 0)
    | cons t rest =>
        obtain ⟨tag, operator, text, children⟩ := t
        refine iff_of_true (List.cons_ne_nil _ _) ?_
        rw [ofForest, Document.size_ofForest, sizeOfForest_cons]
        omega
  · obtain ⟨layout', height, ts, htally, hx⟩ := hbuilt
    obtain ⟨height', us, hus, hafter⟩ := after_walk htally.hasSpine first
    rw [hx, hafter]
    exact run_walk_begun hus second

end Explainer

end SelectorExplain
