import SelectorExplain.Visitor.Basic

set_option autoImplicit false

/-! # Walking a selector tree

A walk goes through a tree in the order in which it is written, entering and leaving groups,
sequences and combinators and visiting simple selectors. The answer of an entering handler decides
how the walk goes on (`Flow`); a failure ends it at once.

Every walk below a group answers `descend` when it has run to its end, also past something that was
skipped, and `stop` when a handler has asked for that. -/

namespace SelectorExplain

namespace Visitor

variable {σ ε : Type}

/-- Enters, goes through the inside and leaves. Skipping drops the inside and the leaving; stopping
    drops the leaving. -/
def around (enter inside : Handler σ ε Flow) (leave : Handler σ ε Unit) : Handler σ ε Flow := do
  match ← enter with
  | .stop => return .stop
  | .skip => return .descend
  | .descend =>
    match ← inside with
    | .stop => return .stop
    | _ =>
      leave
      return .descend

/-- Visits a simple selector with the handler for its kind. -/
def walkSimple (v : Visitor σ ε) (s : Simple) : Handler σ ε Unit := v.onVisitKind s.kind s

/-- Visits simple selectors one after the other. -/
def walkSimples (v : Visitor σ ε) : List Simple → Handler σ ε Unit
  | [] => pure ()
  | s :: rest => do
    v.walkSimple s
    v.walkSimples rest

/-- Walks a combinator, given the walk of its right-hand side. -/
def walkCombinatorTo (v : Visitor σ ε) (c : Combinator) (target : Handler σ ε Flow) :
    Handler σ ε Flow :=
  around (v.onEnterKind c.kind c) target (v.onLeaveKind c.kind c)

/-- Walks a sequence: its simple selectors, then its combinator if it has one. -/
def walkSequence (v : Visitor σ ε) : Sequence → Handler σ ε Flow
  | .last simples =>
    around (v.onEnterSequence (.last simples))
      (do
        v.walkSimples simples
        return .descend)
      (v.onLeaveSequence (.last simples))
  | .chained simples kind target =>
    around (v.onEnterSequence (.chained simples kind target))
      (do
        v.walkSimples simples
        v.walkCombinatorTo ⟨kind, target⟩ (v.walkSequence target))
      (v.onLeaveSequence (.chained simples kind target))

/-- Walks a combinator and the sequence to which it leads. -/
def walkCombinator (v : Visitor σ ε) (c : Combinator) : Handler σ ε Flow :=
  v.walkCombinatorTo c (v.walkSequence c.target)

/-- Walks sequences one after the other, up to one that stops. -/
def walkSequences (v : Visitor σ ε) : List Sequence → Handler σ ε Flow
  | [] => pure .descend
  | s :: rest => do
    match ← v.walkSequence s with
    | .stop => return .stop
    | _ => v.walkSequences rest

/-- Walks a group. -/
def walkGroup (v : Visitor σ ε) (g : Group) : Handler σ ε Flow :=
  around (v.onEnterGroup g) (v.walkSequences g.sequences) (v.onLeaveGroup g)

/-- Walks a group for its effect; whether the walk was stopped early does not matter. -/
def walk (v : Visitor σ ε) (g : Group) : Handler σ ε Unit := do
  let _ ← v.walkGroup g

end Visitor

end SelectorExplain
