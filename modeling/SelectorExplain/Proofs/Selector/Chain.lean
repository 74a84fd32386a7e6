import Mathlib.Logic.Function.Basic
import SelectorExplain.Selector.Build

set_option autoImplicit false

/-! # Chains as lists of links

A chain is its first simple selectors and, behind them, a list of links: the kinds of its
combinators, each with the simple selectors on its right-hand side. Chaining appends to that list
(`links_chain`), so it is associative (`chain_assoc`).

That is why a chain may be put together from its end. Whatever `ontoTail` has made of the last
links, attaching it is attaching these links one after the other (`chain_ontoTail`), and so
`chainAll` is the same as chaining link by link. -/

namespace SelectorExplain

namespace Sequence

/-! ## The links of a chain -/

/-- What stands behind the first element of a chain: each combinator with the simple selectors on
    its right-hand side. -/
def links : Sequence → List (CombinatorKind × List Simple)
  | last _ => []
  | chained _ kind target => (kind, target.simples) :: target.links

@[simp] theorem links_last (simples : List Simple) : (last simples).links = [] := rfl

@[simp] theorem links_chained (simples : List Simple) (kind : CombinatorKind) (target : Sequence) :
    (chained simples kind target).links = (kind, target.simples) :: target.links := rfl

/-- A chain is told by its first simple selectors and its links. -/
theorem eq_of_links_eq {a b : Sequence} (hsimples : a.simples = b.simples)
    (hlinks : a.links = b.links) : a = b := by
  induction a generalizing b with
  | last simples =>
      cases b with
      | last simples' => exact congrArg last hsimples
      | chained simples' kind target => cases hlinks
  | chained simples kind target ih =>
      cases b with
      | last simples' => cases hlinks
      | chained simples' kind' target' =>
          rw [links_chained, links_chained, List.cons.injEq, Prod.mk.injEq] at hlinks
          obtain ⟨⟨hkind, htarget⟩, hrest⟩ := hlinks
          rw [show simples = simples' from hsimples, hkind, ih htarget hrest]

/-! ## Chaining -/

@[simp] theorem simples_chain (a : Sequence) (kind : CombinatorKind) (b : Sequence) :
    (a.chain kind b).simples = a.simples := by
  cases a <;> rfl

/-- Chaining appends the new combinator and whatever is chained to its target. -/
@[simp] theorem links_chain (a : Sequence) (kind : CombinatorKind) (b : Sequence) :
    (a.chain kind b).links = a.links ++ (kind, b.simples) :: b.links := by
  induction a with
  | last simples => rfl
  | chained simples k target ih => simp [chain, ih]

/-- It does not matter which of two combinators is put in first. -/
theorem chain_assoc (a : Sequence) (k : CombinatorKind) (b : Sequence) (k' : CombinatorKind)
    (c : Sequence) : (a.chain k b).chain k' c = a.chain k (b.chain k' c) := by
  apply eq_of_links_eq
  · simp
  · simp

/-! ## Attaching many links -/

/-- One link after the other. -/
def chainEach (head : Sequence) (links : List (CombinatorKind × Sequence)) : Sequence :=
  links.foldl (fun s link => s.chain link.1 link.2) head

theorem chainEach_concat (head : Sequence) (links : List (CombinatorKind × Sequence))
    (kind : CombinatorKind) (next : Sequence) :
    head.chainEach (links ++ [(kind, next)]) = (head.chainEach links).chain kind next := by
  rw [chainEach, List.foldl_append]
  rfl

/-- What has been put together from the last links stands for them wherever it is attached; the
    links that are still to be put onto it are the first ones, in the opposite order. -/
theorem chain_ontoTail (head : Sequence) (earlier : List (CombinatorKind × Sequence))
    (kind : CombinatorKind) (tail : Sequence) :
    head.chain (ontoTail earlier kind tail).1 (ontoTail earlier kind tail).2 =
      (head.chainEach earlier.reverse).chain kind tail := by
  induction earlier generalizing kind tail with
  | nil => rfl
  | cons link earlier ih =>
      obtain ⟨previousKind, previous⟩ := link
      rw [ontoTail, ih, List.reverse_cons, chainEach_concat, chain_assoc]

theorem chainAll_eq_chainEach (head : Sequence) (links : List (CombinatorKind × Sequence)) :
    head.chainAll links = head.chainEach links := by
  unfold chainAll
  split
  · next hnil =>
      rw [List.reverse_eq_nil_iff.1 hnil]
      rfl
  · next kind tail earlier hlinks =>
      refine (chain_ontoTail head earlier kind tail).trans ?_
      rw [← chainEach_concat, ← List.reverse_cons, ← hlinks, List.reverse_reverse]

theorem simples_chainEach (head : Sequence) (links : List (CombinatorKind × Sequence)) :
    (head.chainEach links).simples = head.simples := by
  induction links generalizing head with
  | nil => rfl
  | cons link links ih => exact (ih _).trans (simples_chain head link.1 link.2)

theorem links_chainEach (head : Sequence) (links : List (CombinatorKind × Sequence)) :
    (head.chainEach links).links =
      head.links ++ links.flatMap fun link => (link.1, link.2.simples) :: link.2.links := by
  induction links generalizing head with
  | nil => simp [chainEach]
  | cons link links ih =>
      have hrest := ih (head.chain link.1 link.2)
      rw [links_chain, List.append_assoc] at hrest
      exact hrest

/-- **Attaching many links is attaching one after the other**, whatever chains they are. A chain is
    told by its first simple selectors and its links. Chaining keeps the former and appends to the
    latter the new combinator with what is chained to its target; so the links of all that is
    attached come in order, each of them once and with its own kind. -/
theorem chainAll_eq_foldl (head : Sequence) (links : List (CombinatorKind × Sequence)) :
    head.chainAll links = links.foldl (fun s link => s.chain link.1 link.2) head ∧
      (head.chainAll links).simples = head.simples ∧
      (head.chainAll links).links =
        head.links ++ links.flatMap (fun link => (link.1, link.2.simples) :: link.2.links) ∧
      (∀ a kind b, (chain a kind b).simples = a.simples ∧
        (chain a kind b).links = a.links ++ (kind, b.simples) :: b.links) ∧
      Function.Injective fun s : Sequence => (s.simples, s.links) := by
  rw [chainAll_eq_chainEach]
  refine ⟨rfl, simples_chainEach head links, links_chainEach head links, ?_, ?_⟩
  · intro a kind b
    exact ⟨simples_chain a kind b, links_chain a kind b⟩
  · intro a b hab
    obtain ⟨hsimples, hlinks⟩ := Prod.mk.inj hab
    exact eq_of_links_eq hsimples hlinks

end Sequence

end SelectorExplain
