import SelectorExplain.Selector.Basic

set_option autoImplicit false

/-! # Visitors

A visitor is a record of handlers over a state. For each node of a selector tree there is a concrete
handler (one for each kind of node), for combinators and simple selectors also one for the category,
and one for nodes of any kind. A visitor overrides those it wants. A call goes to the concrete
handler if that one is overridden, else to the category's, else to the one for any node, and else
nothing happens and the walk goes on.

A handler may change the state and may fail; the changes made before a failure stay. -/

namespace SelectorExplain

/-! ## Nodes -/

/-- The concrete kinds of node. -/
inductive NodeKind where
  | group
  | sequence
  | combinator (kind : CombinatorKind)
  | simple (kind : SimpleKind)
  deriving DecidableEq, Repr, Inhabited

namespace NodeKind

/-- Every kind, in the order in which tables list them. -/
def all : List NodeKind :=
  [group, sequence] ++ CombinatorKind.all.map combinator ++
    [SimpleKind.universal, .type, .id, .className, .attr].map simple

/-- The kind in words. -/
def description : NodeKind → String
  | group => "selector group"
  | sequence => "selector sequence"
  | combinator kind => kind.name ++ " combinator"
  | simple .universal => "universal selector"
  | simple .type => "type selector"
  | simple .id => "id selector"
  | simple .className => "class selector"
  | simple .attr => "attribute selector"

/-- Whether nodes of this kind are leaves. -/
def isSimple : NodeKind → Bool
  | simple _ => true
  | _ => false

/-- The kind with a given description. -/
def ofDescription? (words : String) : Option NodeKind := all.find? (·.description == words)

end NodeKind

/-- A node of any kind, as the general handlers get it. -/
inductive Node where
  | group (g : Group)
  | sequence (s : Sequence)
  | combinator (c : Combinator)
  | simple (s : Simple)
  deriving DecidableEq, Repr

def Node.kind : Node → NodeKind
  | group _ => .group
  | sequence _ => .sequence
  | combinator c => .combinator c.kind
  | simple s => .simple s.kind

/-! ## Handlers -/

/-- What a handler for entering a node asks of the walk. -/
inductive Flow where
  /-- Visit what is inside, then leave. -/
  | descend
  /-- Pass over what is inside, and over leaving. -/
  | skip
  /-- End the walk here. -/
  | stop
  deriving DecidableEq, Repr, Inhabited

/-- A computation that may fail with `ε` and keeps the state it had reached then. -/
abbrev Handler (σ ε α : Type) := ExceptT ε (StateM σ) α

/-- The handlers that a visitor overrides. -/
structure Visitor (σ ε : Type) where
  enterGroup : Option (Group → Handler σ ε Flow) := none
  leaveGroup : Option (Group → Handler σ ε Unit) := none
  enterSequence : Option (Sequence → Handler σ ε Flow) := none
  leaveSequence : Option (Sequence → Handler σ ε Unit) := none
  enterKind : CombinatorKind → Option (Combinator → Handler σ ε Flow) := fun _ => none
  leaveKind : CombinatorKind → Option (Combinator → Handler σ ε Unit) := fun _ => none
  enterCombinator : Option (Combinator → Handler σ ε Flow) := none
  leaveCombinator : Option (Combinator → Handler σ ε Unit) := none
  visitKind : SimpleKind → Option (Simple → Handler σ ε Unit) := fun _ => none
  visitSimple : Option (Node → Handler σ ε Unit) := none
  enterNode : Option (Node → Handler σ ε Flow) := none
  leaveNode : Option (Node → Handler σ ε Unit) := none
  visitNode : Option (Node → Handler σ ε Unit) := none

namespace Visitor

variable {σ ε : Type}

/-! ## Which handler a call reaches -/

/-- The handler for entering any node. -/
def onEnterNode (v : Visitor σ ε) (n : Node) : Handler σ ε Flow :=
  match v.enterNode with
  | some handler => handler n
  | none => pure .descend

/-- The handler for leaving any node. -/
def onLeaveNode (v : Visitor σ ε) (n : Node) : Handler σ ε Unit :=
  match v.leaveNode with
  | some handler => handler n
  | none => pure ()

/-- The handler for visiting any leaf. -/
def onVisitNode (v : Visitor σ ε) (n : Node) : Handler σ ε Unit :=
  match v.visitNode with
  | some handler => handler n
  | none => pure ()

def onEnterGroup (v : Visitor σ ε) (g : Group) : Handler σ ε Flow :=
  match v.enterGroup with
  | some handler => handler g
  | none => v.onEnterNode (.group g)

def onLeaveGroup (v : Visitor σ ε) (g : Group) : Handler σ ε Unit :=
  match v.leaveGroup with
  | some handler => handler g
  | none => v.onLeaveNode (.group g)

def onEnterSequence (v : Visitor σ ε) (s : Sequence) : Handler σ ε Flow :=
  match v.enterSequence with
  | some handler => handler s
  | none => v.onEnterNode (.sequence s)

def onLeaveSequence (v : Visitor σ ε) (s : Sequence) : Handler σ ε Unit :=
  match v.leaveSequence with
  | some handler => handler s
  | none => v.onLeaveNode (.sequence s)

/-- The handler for entering a combinator of any kind. -/
def onEnterCombinator (v : Visitor σ ε) (c : Combinator) : Handler σ ε Flow :=
  match v.enterCombinator with
  | some handler => handler c
  | none => v.onEnterNode (.combinator c)

/-- The handler for leaving a combinator of any kind. -/
def onLeaveCombinator (v : Visitor σ ε) (c : Combinator) : Handler σ ε Unit :=
  match v.leaveCombinator with
  | some handler => handler c
  | none => v.onLeaveNode (.combinator c)

/-- The handler for entering a combinator of one kind. -/
def onEnterKind (v : Visitor σ ε) (kind : CombinatorKind) (c : Combinator) : Handler σ ε Flow :=
  match v.enterKind kind with
  | some handler => handler c
  | none => v.onEnterCombinator c

/-- The handler for leaving a combinator of one kind. -/
def onLeaveKind (v : Visitor σ ε) (kind : CombinatorKind) (c : Combinator) : Handler σ ε Unit :=
  match v.leaveKind kind with
  | some handler => handler c
  | none => v.onLeaveCombinator c

/-- The handler for simple selectors of any kind. -/
def onVisitSimple (v : Visitor σ ε) (n : Node) : Handler σ ε Unit :=
  match v.visitSimple with
  | some handler => handler n
  | none => v.onVisitNode n

/-- The handler for simple selectors of one kind. -/
def onVisitKind (v : Visitor σ ε) (kind : SimpleKind) (s : Simple) : Handler σ ε Unit :=
  match v.visitKind kind with
  | some handler => handler s
  | none => v.onVisitSimple (.simple s)

end Visitor

end SelectorExplain
