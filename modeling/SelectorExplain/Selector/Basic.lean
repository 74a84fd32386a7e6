set_option autoImplicit false

/-! # Selector trees

A selector tree is what a CSS selector says once its text has been read: a *group* of sequences, any
of which may match; a *sequence* of simple selectors that hold of one element, which may be chained
by a *combinator* to a further sequence; and the *simple selectors* themselves.

The types here are plain data. A tree is meaningful when every sequence holds at least one simple
selector and every attribute selector carries a literal exactly when its operator compares with one;
`Group.WellFormed` states that, and `Selector/Build.lean` has the constructors that keep it. -/

namespace SelectorExplain

/-! ## Attribute selectors -/

/-- How an attribute selector compares the value of its attribute. -/
inductive Operator where
  | present
  | startsWith
  | endsWith
  | contains
  | equals
  | includes
  | dashMatch
  deriving DecidableEq, Repr, Inhabited

namespace Operator

/-- Every operator, in the order in which tables list them. -/
def all : List Operator :=
  [present, startsWith, endsWith, contains, equals, includes, dashMatch]

/-- The word for an operator, in trees and in explanations. -/
def name : Operator → String
  | present => "exists"
  | startsWith => "prefix"
  | endsWith => "suffix"
  | contains => "substring"
  | equals => "equals"
  | includes => "includes"
  | dashMatch => "dashmatch"

/-- The operator with a given word. -/
def ofName? (word : String) : Option Operator :=
  all.find? (·.name == word)

theorem ofName?_name (op : Operator) : ofName? op.name = some op := by
  cases op <;> rfl

/-- No two operators have the same word. -/
theorem eq_of_name_eq {a b : Operator} (h : a.name = b.name) : a = b := by
  have hfound := ofName?_name a
  rw [h, ofName?_name b] at hfound
  exact (Option.some.inj hfound).symm

/-- The CSS spelling; mere presence has none. -/
def punctuation : Operator → Option String
  | present => none
  | startsWith => some "^="
  | endsWith => some "$="
  | contains => some "*="
  | equals => some "="
  | includes => some "~="
  | dashMatch => some "|="

/-- Whether the operator compares the attribute with a literal. -/
def takesLiteral (op : Operator) : Bool := op != present

end Operator

/-- An attribute selector. The literal is held as it is meant, without escapes. -/
structure Attribute where
  name : String
  operator : Operator
  literal : Option String := none
  deriving DecidableEq, Repr, Inhabited

/-- A literal is there exactly when the operator compares with one. -/
def Attribute.WellFormed (a : Attribute) : Prop :=
  a.literal.isSome = a.operator.takesLiteral

instance (a : Attribute) : Decidable a.WellFormed :=
  inferInstanceAs (Decidable (_ = _))

/-! ## Simple selectors -/

/-- The five kinds of simple selector. -/
inductive SimpleKind where
  | universal
  | type
  | id
  | className
  | attr
  deriving DecidableEq, Repr, Inhabited

/-- One predicate on one element. Namespace prefixes are kept as written: they may be empty or
    `*`. -/
inductive Simple where
  | universal (space : Option String)
  | type (name : String) (space : Option String)
  | id (name : String)
  | className (name : String)
  | attr (test : Attribute)
  deriving DecidableEq, Repr, Inhabited

namespace Simple

def kind : Simple → SimpleKind
  | universal _ => .universal
  | type _ _ => .type
  | id _ => .id
  | className _ => .className
  | attr _ => .attr

def WellFormed : Simple → Prop
  | attr test => test.WellFormed
  | _ => True

instance : (s : Simple) → Decidable s.WellFormed
  | attr test => inferInstanceAs (Decidable test.WellFormed)
  | universal _ | type _ _ | id _ | className _ => isTrue trivial

end Simple

/-! ## Combinators, sequences and groups -/

/-- How the element of one sequence relates to the element of the next. -/
inductive CombinatorKind where
  | descendant
  | child
  | follower
  | next
  deriving DecidableEq, Repr, Inhabited

namespace CombinatorKind

/-- Every kind, in the order in which tables list them. -/
def all : List CombinatorKind := [descendant, child, follower, next]

/-- The word for a kind, in trees and in explanations. -/
def name : CombinatorKind → String
  | descendant => "descendant"
  | child => "child"
  | follower => "follower"
  | next => "next"

/-- The kind with a given word. -/
def ofName? (word : String) : Option CombinatorKind :=
  all.find? (·.name == word)

/-- The combinator as written between two sequences, with the spaces around it. -/
def punctuation : CombinatorKind → String
  | descendant => " "
  | child => " > "
  | follower => " ~ "
  | next => " + "

end CombinatorKind

/-- A chain of lists of simple selectors, each related to the next by a combinator. -/
inductive Sequence where
  | last (simples : List Simple)
  | chained (simples : List Simple) (kind : CombinatorKind) (target : Sequence)
  deriving DecidableEq, Repr

instance : Inhabited Sequence := ⟨.last []⟩

/-- A combinator together with the sequence on its right-hand side. -/
structure Combinator where
  kind : CombinatorKind
  target : Sequence
  deriving DecidableEq, Repr, Inhabited

namespace Sequence

/-- The simple selectors of the first element of the chain. -/
def simples : Sequence → List Simple
  | last simples | chained simples _ _ => simples

/-- The combinator after the first element of the chain, if there is one. -/
def combinator? : Sequence → Option Combinator
  | last _ => none
  | chained _ kind target => some ⟨kind, target⟩

/-- A first element and what follows it. -/
def ofParts (simples : List Simple) : Option Combinator → Sequence
  | none => last simples
  | some ⟨kind, target⟩ => chained simples kind target

/-- The number of combinators along the chain. -/
def depth : Sequence → Nat
  | last _ => 0
  | chained _ _ target => target.depth + 1

/-- Every element of the chain has a simple selector, and all of these are well formed. -/
def WellFormed : Sequence → Prop
  | last simples => simples ≠ [] ∧ ∀ s ∈ simples, s.WellFormed
  | chained simples _ target => (simples ≠ [] ∧ ∀ s ∈ simples, s.WellFormed) ∧ target.WellFormed

instance decidableWellFormed : (s : Sequence) → Decidable s.WellFormed
  | last _ => inferInstanceAs (Decidable (_ ∧ _))
  | chained _ _ target =>
    have := decidableWellFormed target
    inferInstanceAs (Decidable (_ ∧ _))

theorem ofParts_simples_combinator? (s : Sequence) : ofParts s.simples s.combinator? = s := by
  cases s <;> rfl

@[simp] theorem simples_ofParts (simples : List Simple) (c : Option Combinator) :
    (ofParts simples c).simples = simples := by
  cases c <;> rfl

@[simp] theorem combinator?_ofParts (simples : List Simple) (c : Option Combinator) :
    (ofParts simples c).combinator? = c := by
  cases c <;> rfl

end Sequence

/-- A comma-separated list of sequences, in the order in which they were written. -/
structure Group where
  sequences : List Sequence := []
  deriving DecidableEq, Repr, Inhabited

/-- The invariant of a selector tree, at every depth of every chain. -/
def Group.WellFormed (g : Group) : Prop := ∀ s ∈ g.sequences, s.WellFormed

instance (g : Group) : Decidable g.WellFormed :=
  inferInstanceAs (Decidable (∀ s ∈ g.sequences, s.WellFormed))

end SelectorExplain
