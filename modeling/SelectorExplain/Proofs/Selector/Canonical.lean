import Mathlib.Data.List.Basic
import SelectorExplain.Proofs.Json.Yields
import SelectorExplain.Proofs.Selector.RoundTrip

set_option autoImplicit false

/-! # The canonical text of what has been read

However a tree is spelled, what is read is well formed, and its canonical text has no more levels of
brackets than the text it was read from was allowed. For a sequence both are shown together, along
the levels that are left. So the canonical text of any tree that has been read can be read again. -/

namespace SelectorExplain

open Json

/-- A list takes a level, and its items have one less to themselves. -/
theorem yields_items {α : Type} {item : Decoder α} {wellFormed : α → Prop} {toJson : α → JsonValue}
    {depth : Nat} (h : Yields item fun a => wellFormed a ∧ (toJson a).nesting ≤ depth - 1) :
    Yields (Json.list (0 < depth) item) fun items =>
      (∀ a ∈ items, wellFormed a) ∧ (JsonValue.arr (items.map toJson)).nesting ≤ depth := by
  refine (Yields.list fun _ => h).mono fun items hitems => ?_
  have hlevels : JsonValue.nestingOfItems (items.map toJson) ≤ depth - 1 := by
    rw [nestingOfItems_le, List.forall_mem_map]
    exact fun a ha => (hitems.2 a ha).2
  have hroom : 0 < depth := of_decide_eq_true hitems.1
  refine ⟨fun a ha => (hitems.2 a ha).1, ?_⟩
  rw [JsonValue.nesting]
  omega

/-! ## Simple selectors -/

theorem Attribute.wellFormed_of_ofParts {name : String} {op : Operator} {literal : Option String}
    {a : Attribute} (h : ofParts name op literal = .ok a) : a.WellFormed := by
  cases literal with
  | none =>
      cases hop : op.takesLiteral with
      | false =>
          rw [ofParts, if_neg (by simp [hop])] at h
          cases h
          rfl
      | true =>
          rw [ofParts, if_pos hop] at h
          cases h
  | some literal =>
      cases hop : op.takesLiteral with
      | false =>
          rw [ofParts, compare, if_neg (by simp [hop])] at h
          cases h
      | true =>
          rw [ofParts, compare, if_pos hop] at h
          cases h
          exact hop.symm

theorem Attribute.yields_decoder (depth : Nat) :
    Yields (decoder depth) fun a => a.WellFormed ∧ a.toJson.nesting ≤ depth := by
  refine yields_room.checked fun parts a hroom hparts => ?_
  rw [a.nesting_toJson]
  exact ⟨wellFormed_of_ofParts hparts, of_decide_eq_true hroom⟩

namespace Simple

theorem nesting_toJson_le {depth : Nat} (hroom : 0 < depth - 1) (s : Simple) :
    s.toJson.nesting ≤ depth := by
  rw [s.nesting_toJson]
  omega

/-- A simple selector that is made of a record, whatever the record says. -/
theorem yields_plain {σ α : Type} (r : Record σ α) (f : α → Simple) (hf : ∀ a, (f a).WellFormed)
    (depth : Nat) : Yields (f <$> r.read (0 < depth - 1)) fun s =>
      s.WellFormed ∧ s.toJson.nesting ≤ depth :=
  yields_room.map f fun a hroom => ⟨hf a, nesting_toJson_le (of_decide_eq_true hroom) _⟩

theorem yields_decoder (depth : Nat) :
    Yields (decoder depth) fun s => s.WellFormed ∧ s.toJson.nesting ≤ depth := by
  refine Yields.variant (by simp) fun _ => ?_
  simp only [List.forall_mem_cons, List.not_mem_nil, false_implies, implies_true, and_true]
  refine ⟨yields_plain universalRecord universal (fun _ => trivial) _,
    yields_plain typeRecord (fun t => type t.1 t.2) (fun _ => trivial) _,
    yields_plain (nameRecord _ _) id (fun _ => trivial) _,
    yields_plain (nameRecord _ _) className (fun _ => trivial) _, ?_⟩
  refine (Attribute.yields_decoder _).map attr fun a ha => ⟨ha.1, nesting_toJson_le ?_ _⟩
  rw [a.nesting_toJson] at ha
  exact ha.2

end Simple

/-! ## Sequences -/

/-- The simple selectors of a sequence are well formed, and their text has up to `depth` levels. -/
def Sequence.GoodSimples (depth : Nat) (simples : List Simple) : Prop :=
  (∀ x ∈ simples, x.WellFormed) ∧ (JsonValue.arr (simples.map Simple.toJson)).nesting ≤ depth

/-- A combinator's sequence is well formed, and the text of both has up to `depth` levels. -/
def Combinator.Good (depth : Nat) (c : Combinator) : Prop :=
  c.target.WellFormed ∧ c.toJson.nesting ≤ depth

/-- What has been read of a sequence is well formed and has up to `depth` levels. -/
structure SequenceFields.Good (depth : Nat) (s : SequenceFields) : Prop where
  simples : ∀ simples ∈ s.simples, Sequence.GoodSimples depth simples
  combinator : ∀ c ∈ s.combinator.join, c.Good depth

namespace Sequence

theorem yields_simples (depth : Nat) :
    Yields (Json.list (0 < depth) (Simple.decoder (depth - 1))) (GoodSimples depth) :=
  yields_items (Simple.yields_decoder (depth - 1))

/-- A combinator is well formed if its sequence is, one level further in. -/
theorem yields_combinator {depth : Nat}
    (h : 0 < depth →
      Yields (decoder (depth - 1)) fun s => s.WellFormed ∧ s.toJson.nesting ≤ depth - 1) :
    Yields (Combinator.decoder depth) (Combinator.Good depth) := by
  obtain ⟨target, hd, htarget⟩ := Combinator.decoder_eq depth
  rw [hd]
  have hfields : decide (0 < depth) = true →
      KeepsFields (combinatorRecord (depth - 1) target).fields fun s =>
        ∀ t ∈ s.target, t.WellFormed ∧ t.toJson.nesting ≤ depth - 1 := by
    intro hroom
    have hdepth : 0 < depth := of_decide_eq_true hroom
    rw [htarget hdepth]
    simp only [KeepsFields, combinatorRecord, List.forall_mem_cons, List.not_mem_nil,
      false_implies, implies_true, and_true]
    refine ⟨(yields_anything _).field fun s kind hs _ => hs, (h hdepth).field fun s t _ ht => ?_⟩
    rintro _ ⟨⟩
    exact ht
  refine (Yields.record (P := fun c => c.target.WellFormed ∧ c.target.toJson.nesting ≤ depth - 1)
    nofun hfields ?_).mono ?_
  · rintro ⟨kind, target⟩ c hs hfinish
    cases kind with
    | none => cases hfinish
    | some kind =>
        cases target with
        | none => cases hfinish
        | some target =>
            cases hfinish
            exact hs target rfl
  · rintro ⟨kind, target⟩ ⟨hroom, hwf, hlevels⟩
    have hdepth : 0 < depth := of_decide_eq_true hroom
    refine ⟨hwf, ?_⟩
    dsimp only at hlevels
    simp only [Combinator.toJson, CombinatorKind.toJson, JsonValue.nesting,
      JsonValue.nestingOfMembers]
    omega

/-- A sequence with good parts is well formed, and takes one level more than they. -/
theorem GoodSimples.good_ofParts {depth : Nat} {simples : List Simple}
    (h : GoodSimples depth simples) (hne : simples ≠ []) {combinator : Option Combinator}
    (hcombinator : ∀ c ∈ combinator, c.Good depth) :
    (ofParts simples combinator).WellFormed ∧
      (ofParts simples combinator).toJson.nesting ≤ depth + 1 := by
  constructor
  · cases combinator with
    | none => exact ⟨hne, h.1⟩
    | some c => exact ⟨⟨hne, h.1⟩, (hcombinator c rfl).1⟩
  · rw [toJson_eq, JsonValue.nesting, Nat.add_le_add_iff_right, nestingOfMembers_le,
      simples_ofParts, combinator?_ofParts, List.forall_mem_cons]
    refine ⟨h.2, ?_⟩
    cases combinator with
    | none => nofun
    | some c =>
        intro m hm
        rw [List.mem_singleton.1 hm]
        exact (hcombinator c rfl).2

/-- A sequence is well formed if its combinator is. -/
theorem yields_parts {depth : Nat}
    (h : 0 < depth → Yields (Combinator.decoder (depth - 1)) (Combinator.Good (depth - 1))) :
    Yields (decoder depth) fun s => s.WellFormed ∧ s.toJson.nesting ≤ depth := by
  obtain ⟨combinator, hd, hcombinator⟩ := decoder_eq depth
  rw [hd]
  have hfields : decide (0 < depth) = true →
      KeepsFields (sequenceRecord (depth - 1) combinator).fields
        (SequenceFields.Good (depth - 1)) := by
    intro hroom
    have hdepth : 0 < depth := of_decide_eq_true hroom
    rw [hcombinator hdepth]
    simp only [KeepsFields, sequenceRecord, List.forall_mem_cons, List.not_mem_nil,
      false_implies, implies_true, and_true]
    refine ⟨(yields_simples _).field fun s simples hs hsimples => ⟨?_, hs.combinator⟩,
      (h hdepth).option.field fun s c hs hc => ⟨hs.simples, hc⟩⟩
    rintro _ ⟨⟩
    exact hsimples
  have hrecord : Yields ((sequenceRecord (depth - 1) combinator).read (0 < depth)) fun parts =>
      0 < depth ∧ GoodSimples (depth - 1) parts.1 ∧ ∀ c ∈ parts.2, c.Good (depth - 1) := by
    refine (Yields.record (P := fun parts => GoodSimples (depth - 1) parts.1 ∧
      ∀ c ∈ parts.2, c.Good (depth - 1)) ⟨nofun, nofun⟩ hfields ?_).mono
      fun parts hparts => ⟨of_decide_eq_true hparts.1, hparts.2⟩
    rintro ⟨simples, c⟩ parts hs hfinish
    cases simples with
    | none => cases hfinish
    | some simples =>
        cases hfinish
        exact ⟨hs.simples simples rfl, hs.combinator⟩
  refine hrecord.checked ?_
  rintro ⟨simples, c⟩ s ⟨hdepth, hsimples, hc⟩ hcheck
  cases simples with
  | nil => cases hcheck
  | cons x rest =>
      cases hcheck
      have hgood := hsimples.good_ofParts (List.cons_ne_nil x rest) hc
      rw [Nat.sub_add_cancel hdepth] at hgood
      exact hgood

theorem yields_decoder (depth : Nat) :
    Yields (decoder depth) fun s => s.WellFormed ∧ s.toJson.nesting ≤ depth := by
  -- each combinator of the chain leaves two levels less
  induction depth using Nat.strongRecOn with
  | ind depth ih => exact yields_parts fun _ => yields_combinator fun _ => ih _ (by omega)

end Sequence

/-! ## Groups -/

namespace Group

theorem yields_decoder (depth : Nat) :
    Yields (decoder depth) fun g => g.WellFormed ∧ g.toJson.nesting ≤ depth := by
  have hfields : decide (0 < depth) = true →
      KeepsFields (groupRecord (depth - 1)).fields fun s =>
        ∀ sequences ∈ s, (∀ x ∈ sequences, x.WellFormed) ∧
          (JsonValue.arr (sequences.map Sequence.toJson)).nesting ≤ depth - 1 := by
    intro _
    simp only [KeepsFields, groupRecord, List.forall_mem_cons, List.not_mem_nil,
      false_implies, implies_true, and_true]
    refine (yields_items (Sequence.yields_decoder _)).field fun s sequences _ h => ?_
    rintro _ ⟨⟩
    exact h
  refine (Yields.record (P := fun g => g.WellFormed ∧
    (JsonValue.arr (g.sequences.map Sequence.toJson)).nesting ≤ depth - 1) nofun hfields ?_).mono ?_
  · rintro s g hs hfinish
    cases s with
    | none => cases hfinish
    | some sequences =>
        cases hfinish
        exact hs sequences rfl
  · rintro g ⟨hroom, hwf, hlevels⟩
    have hdepth : 0 < depth := of_decide_eq_true hroom
    refine ⟨hwf, ?_⟩
    rw [toJson, JsonValue.nesting, JsonValue.nestingOfMembers, JsonValue.nestingOfMembers]
    omega

variable {text : String} {g : Group}

theorem ofJson_of_parse (h : parse text = .ok g) : ofJson text = .ok g := by
  unfold parse at h
  cases hjson : ofJson text with
  | error f =>
      rw [hjson] at h
      cases h
  | ok g =>
      rw [hjson] at h
      cases h
      rfl

/-- Whatever is read is a well-formed tree, whose chains are not too long to be read again. -/
theorem wellFormed_of_parse (h : parse text = .ok g) :
    g.WellFormed ∧ ∀ s ∈ g.sequences, s.depth ≤ 60 := by
  have hgood := (yields_decoder maxDepth).decode (ofJson_of_parse h)
  exact ⟨hgood.1, hgood.1.nesting_le_maxDepth.1 hgood.2⟩

/-- **The canonical text is stable.** A tree that has been read, however it was spelled, is read
    back from its canonical text, and so that text stays as it is when it is read and written once
    more. -/
theorem parse_canonical (h : parse text = .ok g) :
    (∀ s ∈ g.sequences, s.depth ≤ 60) ∧ ∃ again, parse g.toJson.compact = .ok again ∧
      again = g ∧ again.toJson.compact = g.toJson.compact := by
  obtain ⟨hwf, hdepth⟩ := wellFormed_of_parse h
  exact ⟨hdepth, g, hwf.parse_eq_ok hdepth, rfl, rfl⟩

/-- A text with a member that means nothing, an escape, nulls, and lists in place of objects. -/
def oddlySpelled : String :=
  "[[[[\x7b\"id\": \x7b\"more\": [1], \"id\": \"\\u0061\"\x7d\x7d],\n [\x7b\"child\": null\x7d," ++
    " [[\x7b\"universal\": [null]\x7d], null]]]]]"

/-- What that text means. -/
def oddlySpelledGroup : Group := ⟨[.chained [.id "a"] .child (.last [.universal none])]⟩

theorem parse_canonical_oddlySpelled : parse oddlySpelled = .ok oddlySpelledGroup ∧
    (∀ s ∈ oddlySpelledGroup.sequences, s.depth ≤ 60) ∧
    ∃ again, parse oddlySpelledGroup.toJson.compact = .ok again ∧ again = oddlySpelledGroup ∧
      again.toJson.compact = oddlySpelledGroup.toJson.compact := by
  have h : parse oddlySpelled = .ok oddlySpelledGroup := by decide +kernel
  exact ⟨h, parse_canonical h⟩

end Group

end SelectorExplain
