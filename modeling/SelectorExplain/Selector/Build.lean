import SelectorExplain.Selector.Basic

set_option autoImplicit false

/-! # Building selector trees

The constructors that a reader or a caller goes through. Those that could break the invariant of
`Selector/Basic.lean` answer a `TreeError` instead, so whatever they build from well-formed parts is
well formed. Chaining always attaches at the end of the chain. -/

namespace SelectorExplain

/-- Why parts do not make a tree. -/
inductive TreeError where
  | emptySequence
  | missingLiteral (name : String) (operator : Operator)
  | unexpectedLiteral (name : String)
  deriving DecidableEq, Repr

/-- The wording of an error. -/
def TreeError.message : TreeError → String
  | emptySequence => "selector sequence must contain at least one simple selector"
  | missingLiteral name operator =>
    s!"attribute selector [{name}] with operator '{operator.name}' requires a literal"
  | unexpectedLiteral name =>
    s!"attribute selector [{name}] with operator 'exists' takes no literal"

/-! ## Attribute selectors -/

namespace Attribute

/-- The selector for mere presence of an attribute. -/
def present (name : String) : Attribute := { name, operator := .present }

/-- The selector that compares an attribute with a literal. -/
def compare (name : String) (operator : Operator) (literal : String) :
    Except TreeError Attribute :=
  if operator.takesLiteral then .ok { name, operator, literal := some literal }
  else .error (.unexpectedLiteral name)

/-- The selector with these parts, provided that operator and literal go together. -/
def ofParts (name : String) (operator : Operator) : Option String → Except TreeError Attribute
  | some literal => compare name operator literal
  | none =>
    if operator.takesLiteral then .error (.missingLiteral name operator) else .ok (present name)

end Attribute

/-! ## Sequences -/

namespace Sequence

/-- The sequence of one or more simple selectors. -/
def ofSimples (simples : List Simple) : Except TreeError Sequence :=
  if simples.isEmpty then .error .emptySequence else .ok (last simples)

/-- The sequence of one simple selector. -/
def single (simple : Simple) : Sequence := last [simple]

/-- The sequence with these parts, provided that it starts with a simple selector. -/
def checkParts (simples : List Simple) (combinator : Option Combinator) :
    Except TreeError Sequence :=
  if simples.isEmpty then .error .emptySequence else .ok (ofParts simples combinator)

/-- Relates `next` to the last element of the chain. -/
def chain : Sequence → CombinatorKind → Sequence → Sequence
  | last simples, kind, next => chained simples kind next
  | chained simples k target, kind, next => chained simples k (target.chain kind next)

/-- Puts links onto a tail, from the last one to the first, given in that order. The kind goes one
    step behind: a link is related to the tail by the kind of the link after it, and its own kind
    waits for what comes before it. -/
def ontoTail : (links : List (CombinatorKind × Sequence)) → CombinatorKind → Sequence →
    CombinatorKind × Sequence
  | [], kind, tail => (kind, tail)
  | (previousKind, previous) :: links, kind, tail =>
    ontoTail links previousKind (previous.chain kind tail)

/-- Attaches the links one after the other. The chain is put together from its end, so each link is
    walked once, however many there are. -/
def chainAll (head : Sequence) (links : List (CombinatorKind × Sequence)) : Sequence :=
  match links.reverse with
  | [] => head
  | (lastKind, tail) :: earlier =>
    let (kind, tail) := ontoTail earlier lastKind tail
    head.chain kind tail

end Sequence

end SelectorExplain
