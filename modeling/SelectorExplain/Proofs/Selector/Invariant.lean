import SelectorExplain.Command.Basic
import SelectorExplain.Proofs.Selector.Chain
import SelectorExplain.Proofs.Selector.Flawed
import SelectorExplain.Visitor.Basic

set_option autoImplicit false

/-! # The invariant of selector trees

However a tree is obtained, by the constructors of `Selector/Build.lean` from what has been obtained
already, from a JSON text, or as a part of a larger tree, it keeps the invariant of
`Selector/Basic.lean`. `Node.Obtained` lists the ways, for nodes of every kind; an attribute
selector is among the simple selectors. A text that breaks the invariant is never accepted. -/

namespace SelectorExplain

open Json

/-! ## Building -/

theorem Attribute.wellFormed_of_compare {name literal : String} {op : Operator} {a : Attribute}
    (h : compare name op literal = .ok a) : a.WellFormed :=
  wellFormed_of_ofParts (show ofParts name op (some literal) = .ok a from h)

namespace Sequence

theorem wellFormed_of_ofSimples {simples : List Simple} {s : Sequence}
    (hsimples : ∀ x ∈ simples, x.WellFormed) (h : ofSimples simples = .ok s) : s.WellFormed := by
  unfold ofSimples at h
  split at h
  · cases h
  · next hne =>
      cases h
      exact ⟨by simpa using hne, hsimples⟩

theorem WellFormed.simples {s : Sequence} (h : s.WellFormed) : ∀ x ∈ s.simples, x.WellFormed := by
  cases s with
  | last simples => exact h.2
  | chained simples kind target => exact h.1.2

theorem WellFormed.target {s : Sequence} (h : s.WellFormed) {c : Combinator}
    (hc : s.combinator? = some c) : c.target.WellFormed := by
  cases s with
  | last simples => cases hc
  | chained simples kind target =>
      cases hc
      exact h.2

/-- What is attached stands behind the last element of the chain. -/
theorem WellFormed.chain {s next : Sequence} (hs : s.WellFormed) (hnext : next.WellFormed)
    (kind : CombinatorKind) : (s.chain kind next).WellFormed := by
  induction s with
  | last simples => exact ⟨hs, hnext⟩
  | chained simples k target ih => exact ⟨hs.1, ih hs.2⟩

theorem WellFormed.chainAll {s : Sequence} (hs : s.WellFormed)
    {links : List (CombinatorKind × Sequence)} (hlinks : ∀ l ∈ links, l.2.WellFormed) :
    (s.chainAll links).WellFormed := by
  rw [chainAll_eq_chainEach]
  induction links generalizing s with
  | nil => exact hs
  | cons l links ih =>
      rw [List.forall_mem_cons] at hlinks
      exact ih (hs.chain hlinks.1 l.1) hlinks.2

end Sequence

/-! ## Ways of obtaining a node -/

/-- The node and all that is in it keep the invariant. -/
def Node.WellFormed : Node → Prop
  | .group g => g.WellFormed
  | .sequence s => s.WellFormed
  | .combinator c => c.target.WellFormed
  | .simple s => s.WellFormed

/-- The nodes that can be had: built from others, read from a text, or taken out of others. -/
inductive Node.Obtained : Node → Prop
  | plain {s : Simple} (h : s.kind ≠ .attr) : Obtained (.simple s)
  | present (name : String) : Obtained (.simple (.attr (.present name)))
  | compare {name literal : String} {op : Operator} {a : Attribute}
      (h : Attribute.compare name op literal = .ok a) : Obtained (.simple (.attr a))
  | ofSimples {simples : List Simple} {s : Sequence}
      (hsimples : ∀ x ∈ simples, Obtained (.simple x)) (h : Sequence.ofSimples simples = .ok s) :
      Obtained (.sequence s)
  | single {x : Simple} (h : Obtained (.simple x)) : Obtained (.sequence (.single x))
  | chain {s next : Sequence} (kind : CombinatorKind) (hs : Obtained (.sequence s))
      (hnext : Obtained (.sequence next)) : Obtained (.sequence (s.chain kind next))
  | chainAll {s : Sequence} {links : List (CombinatorKind × Sequence)} (hs : Obtained (.sequence s))
      (hlinks : ∀ l ∈ links, Obtained (.sequence l.2)) : Obtained (.sequence (s.chainAll links))
  | combinator (kind : CombinatorKind) {target : Sequence} (h : Obtained (.sequence target)) :
      Obtained (.combinator ⟨kind, target⟩)
  | group {sequences : List Sequence} (h : ∀ s ∈ sequences, Obtained (.sequence s)) :
      Obtained (.group ⟨sequences⟩)
  | parsed {text : String} {g : Group} (h : Group.parse text = .ok g) : Obtained (.group g)
  | readGroup {text : String} {g : Group} (h : decode Group.decoder text = .ok g) :
      Obtained (.group g)
  | readSequence {text : String} {s : Sequence} (h : decode Sequence.decoder text = .ok s) :
      Obtained (.sequence s)
  | readCombinator {text : String} {c : Combinator} (h : decode Combinator.decoder text = .ok c) :
      Obtained (.combinator c)
  | readSimple {text : String} {s : Simple} (h : decode Simple.decoder text = .ok s) :
      Obtained (.simple s)
  | readAttribute {text : String} {a : Attribute} (h : decode Attribute.decoder text = .ok a) :
      Obtained (.simple (.attr a))
  | sequenceOf {g : Group} {s : Sequence} (h : Obtained (.group g)) (hs : s ∈ g.sequences) :
      Obtained (.sequence s)
  | simpleOf {s : Sequence} {x : Simple} (h : Obtained (.sequence s)) (hx : x ∈ s.simples) :
      Obtained (.simple x)
  | combinatorOf {s : Sequence} {c : Combinator} (h : Obtained (.sequence s))
      (hc : s.combinator? = some c) : Obtained (.combinator c)
  | targetOf {c : Combinator} (h : Obtained (.combinator c)) : Obtained (.sequence c.target)

theorem Combinator.yields_decoder (depth : Nat) : Yields (decoder depth) (Good depth) :=
  Sequence.yields_combinator fun _ => Sequence.yields_decoder _

theorem Node.Obtained.wellFormed {n : Node} (h : n.Obtained) : n.WellFormed := by
  induction h with
  | @plain s hkind =>
      cases s with
      | attr a => exact absurd rfl hkind
      | universal _ | type _ _ | id _ | className _ => trivial
  | present name => exact (rfl : (Attribute.present name).WellFormed)
  | compare h => exact Attribute.wellFormed_of_compare h
  | ofSimples hsimples h ih => exact Sequence.wellFormed_of_ofSimples ih h
  | single h ih => exact ⟨List.cons_ne_nil _ _, List.forall_mem_singleton.2 ih⟩
  | chain kind hs hnext ihs ihnext => exact Sequence.WellFormed.chain ihs ihnext kind
  | chainAll hs hlinks ihs ihlinks => exact Sequence.WellFormed.chainAll ihs ihlinks
  | combinator kind h ih => exact ih
  | group h ih => exact ih
  | parsed h => exact (Group.wellFormed_of_parse h).1
  | readGroup h => exact ((Group.yields_decoder maxDepth).decode h).1
  | readSequence h => exact ((Sequence.yields_decoder maxDepth).decode h).1
  | readCombinator h => exact ((Combinator.yields_decoder maxDepth).decode h).1
  | readSimple h => exact ((Simple.yields_decoder maxDepth).decode h).1
  | readAttribute h => exact ((Attribute.yields_decoder maxDepth).decode h).1
  | sequenceOf h hs ih => exact ih _ hs
  | simpleOf h hx ih => exact Sequence.WellFormed.simples ih _ hx
  | combinatorOf h hc ih => exact Sequence.WellFormed.target ih hc
  | targetOf h ih => exact ih

/-! ## Texts that are refused -/

/-- A text of which nothing is made is refused. -/
theorem decode_error_of_not_makes {α : Type} {d : Nat → Decoder α} {t w more : List Char}
    (h : ∀ a, ¬Makes (d maxDepth) t a) {text : String} (hw : Blanks w) (hmore : Blanks more)
    (htext : text.toList = w ++ (t ++ more)) : ∃ fault, decode d text = .error fault := by
  cases hdecode : decode d text with
  | error fault => exact ⟨fault, rfl⟩
  | ok a => exact absurd (makes_of_decode hw hmore htext hdecode) (h a)

/-- **Trees keep their invariant**, however they are obtained: every sequence has a simple selector,
    and every attribute selector has a literal exactly when its operator compares with one. So no
    text that breaks the invariant, at whatever depth and in whichever spelling, is ever read as a
    group or as a sequence. -/
theorem Node.invariant_kept :
    (∀ n : Node, n.Obtained → n.WellFormed) ∧
      (∀ {text : String} {t w more : List Char}, Group.FlawedText t → Blanks w → Blanks more →
        text.toList = w ++ (t ++ more) → ∃ failure, Group.parse text = .error failure) ∧
      ∀ {text : String} {t w more : List Char}, Sequence.FlawedText t → Blanks w → Blanks more →
        text.toList = w ++ (t ++ more) → ∃ fault, decode Sequence.decoder text = .error fault := by
  refine ⟨fun n h => h.wellFormed, ?_, ?_⟩
  · intro text t w more ht hw hmore htext
    obtain ⟨fault, hfault⟩ := decode_error_of_not_makes (ht.not_makes maxDepth) hw hmore htext
    exact ⟨_, by rw [Group.parse, Group.ofJson, hfault]; rfl⟩
  · intro text t w more ht hw hmore htext
    exact decode_error_of_not_makes (ht.not_makes maxDepth) hw hmore htext

/-- A group, with lists for its records, in which a sequence behind a combinator is empty. -/
def emptyBehind : String := "[[[[\x7b\"universal\":[]\x7d],[\"child\",[[]]]]]]"

theorem flawed_emptyBehind : Group.FlawedText emptyBehind.toList := by
  have hempty : Brackets (.list []) ['[', ']'] :=
    .list (t := []) (List.forall_mem_nil _) (.close blanks_nil)
  have htarget : Brackets (.list [['[', ']']]) _ :=
    .list (List.forall_mem_singleton.2 hempty.valid)
      (.item blanks_nil blanks_nil (.close blanks_nil))
  have hkind : Valid (quoted "child") := .string (denotes_escaped _).literal
  have hcombinator : Brackets (.list [quoted "child", _]) _ :=
    .list (List.forall_mem_cons.2 ⟨hkind, List.forall_mem_singleton.2 htarget.valid⟩)
      (.item blanks_nil blanks_nil (.item blanks_nil blanks_nil (.close blanks_nil)))
  have huniversal : Valid _ :=
    .object (List.forall_mem_singleton.2 (denotes_escaped "universal".toList).literal)
      (List.forall_mem_singleton.2 hempty.valid)
      (.member blanks_nil blanks_nil blanks_nil blanks_nil (.close blanks_nil))
  have hsimples : Valid _ := .list (List.forall_mem_singleton.2 huniversal)
    (.item blanks_nil blanks_nil (.close blanks_nil))
  have hsequence : Brackets (.list [_, _]) _ :=
    .list (List.forall_mem_cons.2 ⟨hsimples, List.forall_mem_singleton.2 hcombinator.valid⟩)
      (.item blanks_nil blanks_nil (.item blanks_nil blanks_nil (.close blanks_nil)))
  have hsequences : Brackets (.list [_]) _ :=
    .list (List.forall_mem_singleton.2 hsequence.valid)
      (.item blanks_nil blanks_nil (.close blanks_nil))
  have hgroup : Brackets (.list [_]) _ :=
    .list (List.forall_mem_singleton.2 hsequences.valid)
      (.item blanks_nil blanks_nil (.close blanks_nil))
  have hflaw : Sequence.FlawedText _ :=
    .target hsequence rfl hcombinator rfl (.noSimples htarget rfl hempty)
  have hchars : emptyBehind.toList = _ := String.toList_ofList
  rw [hchars]
  exact .sequence hgroup rfl hsequences List.mem_cons_self hflaw

/-- A sequence with a test for mere presence that has a literal. -/
def comparesPresence : Sequence := .last [.attr ⟨"a", .present, some ""⟩]

theorem flawed_comparesPresence : Sequence.FlawedText comparesPresence.toJson.compact.toList := by
  have hattribute : Brackets _ (JsonValue.obj [("name", .str "a"), ("operator", .str "exists"),
      ("literal", .str "")]).compact.toList :=
    brackets_compact_obj (by simp [valid_compact_str])
  have hsimple : Brackets (.object ([("attribute", _)].map printed)) _ :=
    brackets_compact_obj (List.forall_mem_singleton.2 hattribute.valid)
  have hsimples : Brackets (.list ([_].map fun v : JsonValue => v.compact.toList)) _ :=
    brackets_compact_arr (List.forall_mem_singleton.2 hsimple.valid)
  have hsequence : Brackets (.object ([("simples", _)].map printed)) _ :=
    brackets_compact_obj (List.forall_mem_singleton.2 hsimples.valid)
  have hpresence : Attribute.FlawedText _ :=
    .unexpected hattribute (.of_printed (v := .str "exists") (by simp) 1) (wordText_compact _)
      (.of_printed (v := .str "") (by simp) 2) (by simp [toList_compact_str, quoted, nullText])
  exact .simple hsequence (.of_printed (by simp) 0) hsimples List.mem_cons_self
    (.attribute hsimple List.mem_cons_self (denotes_escaped _) hpresence)

/-- A chain that is built link by link, and two texts that are refused. -/
theorem Node.invariant_kept_sample :
    (Node.sequence ((Sequence.single (.id "a")).chain .child
      (.single (.attr (.present "b"))))).WellFormed ∧
      (∃ failure, Group.parse emptyBehind = .error failure) ∧
      ∃ fault, decode Sequence.decoder comparesPresence.toJson.compact = .error fault := by
  obtain ⟨hbuilt, hgroup, hsequence⟩ := Node.invariant_kept
  exact ⟨hbuilt _ (.chain .child (.single (.plain (by decide))) (.single (.present "b"))),
    hgroup flawed_emptyBehind blanks_nil blanks_nil (by simp),
    hsequence flawed_comparesPresence blanks_nil blanks_nil (by simp)⟩

end SelectorExplain
