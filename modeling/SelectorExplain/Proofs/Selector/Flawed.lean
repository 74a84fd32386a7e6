import SelectorExplain.Proofs.Json.Fills
import SelectorExplain.Proofs.Selector.Canonical
import SelectorExplain.Proofs.Selector.Spelled

set_option autoImplicit false

/-! # Texts that break the invariant

A text may say what no selector tree says: that a sequence has no simple selector, or that a literal
is missing or too much. `FlawedText` finds such a place at any depth, whether records are written as
objects or as lists, with whatever else is written around it. No reader makes anything of a flawed
text: what it makes of the whole it makes of the parts (`Makes.record_inv`, `Column.gathered`), so a
reader that accepted the whole would have accepted the place of the flaw. -/

namespace SelectorExplain

open Json

/-! ## Flaws -/

/-- An operator that compares has no literal, or the operator for mere presence has one. -/
inductive Attribute.FlawedText : List Char → Prop
  | missing {written : Written} {t u : List Char} {op : Operator} (ht : Brackets written t)
      (hop : written.Has "operator" 1 u) (hu : WordText op.name u) (hcompares : op ≠ .present)
      (hv : ∀ v, written.Has "literal" 2 v → v = nullText) : FlawedText t
  | unexpected {written : Written} {t u v : List Char} (ht : Brackets written t)
      (hop : written.Has "operator" 1 u) (hu : WordText Operator.present.name u)
      (hv : written.Has "literal" 2 v) (hne : v ≠ nullText) : FlawedText t

/-- The simple selector is an attribute selector with a flaw. -/
inductive Simple.FlawedText : List Char → Prop
  | attribute {members : List (List Char × List Char)} {t literal v : List Char}
      (ht : Brackets (.object members) t) (hm : (literal, v) ∈ members)
      (hkey : Denotes literal "attribute".toList) (hv : Attribute.FlawedText v) : FlawedText t

/-- The sequence, or one further on along its chain, has no simple selector or one with a flaw. -/
inductive Sequence.FlawedText : List Char → Prop
  | noSimples {written : Written} {t u : List Char} (ht : Brackets written t)
      (hsimples : written.Has "simples" 0 u) (hu : Brackets (.list []) u) : FlawedText t
  | simple {written : Written} {t u v : List Char} {items : List (List Char)}
      (ht : Brackets written t) (hsimples : written.Has "simples" 0 u)
      (hu : Brackets (.list items) u) (hv : v ∈ items) (hsimple : Simple.FlawedText v) :
      FlawedText t
  | target {written inner : Written} {t u v : List Char} (ht : Brackets written t)
      (hcombinator : written.Has "combinator" 1 u) (hu : Brackets inner u)
      (hv : inner.Has "sequence" 1 v) (htarget : FlawedText v) : FlawedText t

/-- A sequence of the group has a flaw. -/
inductive Group.FlawedText : List Char → Prop
  | sequence {written : Written} {t u v : List Char} {items : List (List Char)}
      (ht : Brackets written t) (hsequences : written.Has "sequences" 0 u)
      (hu : Brackets (.list items) u) (hv : v ∈ items) (hsequence : Sequence.FlawedText v) :
      FlawedText t

/-! ## Readers that stop behind a value -/

theorem Operator.consumes_decoder (depth : Nat) : Consumes (decoder depth) := consumes_oneOf _ _

theorem CombinatorKind.consumes_decoder (depth : Nat) : Consumes (decoder depth) :=
  consumes_oneOf _ _

theorem Attribute.consumesFields (depth : Nat) : ConsumesFields (attributeRecord depth).fields :=
  .cons consumes_string.field <| .cons (Operator.consumes_decoder _).field <|
    .cons consumes_string.option.field .nil

theorem Attribute.consumes_decoder (depth : Nat) : Consumes (decoder depth) :=
  (Consumes.record fun _ => consumesFields _).checked _

namespace Simple

theorem consumesFields_universal : ConsumesFields universalRecord.fields :=
  .cons consumes_string.option.field .nil

theorem consumesFields_type : ConsumesFields typeRecord.fields :=
  .cons consumes_string.field <| .cons consumes_string.option.field .nil

theorem consumesFields_name (record field : String) :
    ConsumesFields (nameRecord record field).fields :=
  .cons consumes_string.field .nil

/-- A simple selector is a variant, and one of its words is for attribute selectors. -/
theorem decoder_eq (depth : Nat) : ∃ known, decoder depth = Json.variant (0 < depth) known ∧
    (∀ entry ∈ known, Consumes entry.2.2) ∧ known.find? (·.1 == "attribute") =
      some ("attribute", none, attr <$> Attribute.decoder (depth - 1)) := by
  refine ⟨_, rfl, ?_, rfl⟩
  simp only [List.forall_mem_cons, List.not_mem_nil, false_implies, implies_true, and_true]
  exact ⟨(Consumes.record fun _ => consumesFields_universal).map _,
    (Consumes.record fun _ => consumesFields_type).map _,
    (Consumes.record fun _ => consumesFields_name _ _).map _,
    (Consumes.record fun _ => consumesFields_name _ _).map _,
    (Attribute.consumes_decoder _).map _⟩

theorem consumes_decoder (depth : Nat) : Consumes (decoder depth) := by
  obtain ⟨known, hd, hknown, -⟩ := decoder_eq depth
  rw [hd]
  exact Consumes.variant hknown

end Simple

theorem Sequence.consumesFields {depth : Nat} {combinator : Decoder Combinator}
    (h : Consumes combinator) : ConsumesFields (sequenceRecord depth combinator).fields :=
  .cons ((Simple.consumes_decoder _).list _).field <| .cons h.option.field .nil

theorem Combinator.consumesFields {depth : Nat} {target : Decoder Sequence} (h : Consumes target) :
    ConsumesFields (combinatorRecord depth target).fields :=
  .cons (CombinatorKind.consumes_decoder _).field <| .cons h.field .nil

theorem Combinator.consumes_of_sequence {depth : Nat}
    (h : 0 < depth → Consumes (Sequence.decoder (depth - 1))) : Consumes (decoder depth) := by
  obtain ⟨target, hd, htarget⟩ := decoder_eq depth
  rw [hd]
  refine Consumes.record fun hroom => ?_
  have hdepth : 0 < depth := of_decide_eq_true hroom
  rw [htarget hdepth]
  exact consumesFields (h hdepth)

theorem Sequence.consumes_decoder (depth : Nat) : Consumes (decoder depth) := by
  -- each combinator of the chain leaves two levels less
  induction depth using Nat.strongRecOn with
  | ind depth ih =>
      obtain ⟨combinator, hd, hcombinator⟩ := decoder_eq depth
      rw [hd]
      refine (Consumes.record fun hroom => ?_).checked _
      have hdepth : 0 < depth := of_decide_eq_true hroom
      rw [hcombinator hdepth]
      exact consumesFields (Combinator.consumes_of_sequence fun _ => ih _ (by omega))

theorem Combinator.consumes_decoder (depth : Nat) : Consumes (decoder depth) :=
  consumes_of_sequence fun _ => Sequence.consumes_decoder _

theorem Group.consumesFields (depth : Nat) : ConsumesFields (groupRecord depth).fields :=
  .cons ((Sequence.consumes_decoder _).list _).field .nil

/-! ## Fields -/

theorem Attribute.column_operator (depth : Nat) :
    Column (attributeRecord depth) "operator" 1 (Operator.decoder depth) (·.operator) where
  start := rfl
  fields := by
    refine ⟨[_], _, [_], rfl, rfl, owns_of fun _ _ => rfl, ?_⟩
    simp only [List.cons_append, List.nil_append, List.forall_mem_cons]
    exact ⟨leaves_of (by decide) fun _ _ => rfl, leaves_of (by decide) fun _ _ => rfl, nofun⟩

theorem Attribute.column_literal (depth : Nat) :
    Column (attributeRecord depth) "literal" 2 (Json.option Json.string) (·.literal) where
  start := rfl
  fields := by
    refine ⟨[_, _], _, [], rfl, rfl, owns_of fun _ _ => rfl, ?_⟩
    simp only [List.cons_append, List.nil_append, List.forall_mem_cons]
    exact ⟨leaves_of (by decide) fun _ _ => rfl, leaves_of (by decide) fun _ _ => rfl, nofun⟩

theorem Sequence.column_simples (depth : Nat) (combinator : Decoder Combinator) :
    Column (sequenceRecord depth combinator) "simples" 0
      (Json.list (0 < depth) (Simple.decoder (depth - 1))) (·.simples) where
  start := rfl
  fields := by
    refine ⟨[], _, [_], rfl, rfl, owns_of fun _ _ => rfl, ?_⟩
    simp only [List.nil_append, List.forall_mem_cons]
    exact ⟨leaves_of (by decide) fun _ _ => rfl, nofun⟩

theorem Sequence.column_combinator (depth : Nat) (combinator : Decoder Combinator) :
    Column (sequenceRecord depth combinator) "combinator" 1 (Json.option combinator)
      (·.combinator) where
  start := rfl
  fields := by
    refine ⟨[_], _, [], rfl, rfl, owns_of fun _ _ => rfl, ?_⟩
    simp only [List.cons_append, List.nil_append, List.forall_mem_cons]
    exact ⟨leaves_of (by decide) fun _ _ => rfl, nofun⟩

theorem Combinator.column_target (depth : Nat) (target : Decoder Sequence) :
    Column (combinatorRecord depth target) "sequence" 1 target (·.target) where
  start := rfl
  fields := by
    refine ⟨[_], _, [], rfl, rfl, owns_of fun _ _ => rfl, ?_⟩
    simp only [List.cons_append, List.nil_append, List.forall_mem_cons]
    exact ⟨leaves_of (by decide) fun _ _ => rfl, nofun⟩

theorem Group.column_sequences (depth : Nat) :
    Column (groupRecord depth) "sequences" 0
      (Json.list (0 < depth) (Sequence.decoder (depth - 1))) id where
  start := rfl
  fields := ⟨[], _, [], rfl, rfl, owns_of fun _ _ => rfl, nofun⟩

/-! ## What has been read of a text -/

theorem Attribute.isSome_of_ofParts {name : String} {op : Operator} {literal : Option String}
    {a : Attribute} (h : ofParts name op literal = .ok a) :
    literal.isSome = op.takesLiteral := by
  cases literal <;> cases hop : op.takesLiteral <;> simp_all [ofParts, compare]

/-- The literal of an attribute selector is the one that is written, and goes with the operator. -/
theorem Attribute.makes_inv {depth : Nat} {written : Written} {t u : List Char} {op : Operator}
    {a : Attribute} (h : Makes (decoder depth) t a) (ht : Brackets written t)
    (hop : written.Has "operator" 1 u) (hu : WordText op.name u) :
    ∃ literal, Gathered (Json.option Json.string) (fun v => written.Has "literal" 2 v) literal ∧
      literal.join.isSome = op.takesLiteral := by
  obtain ⟨parts, hparts, hcheck⟩ := h.checked_inv
  obtain ⟨-, s, hfills, hfinish⟩ := hparts.record_inv (fun _ => consumesFields _) ht
  obtain ⟨made, hmade, hoperator⟩ := ((column_operator _).gathered hfills).of_written hop
  obtain rfl : made = op := hmade.oneOf_eq op.find?_name hu
  refine ⟨s.literal, (column_literal _).gathered hfills, ?_⟩
  cases hname : s.name with
  | none =>
      simp only [attributeRecord, hname] at hfinish
      cases hfinish
  | some name =>
      simp only [attributeRecord, hname, hoperator] at hfinish
      cases hfinish
      exact isSome_of_ofParts hcheck

/-- The parts of a sequence are made of what is written, and there is a simple selector. -/
theorem Sequence.makes_inv {depth : Nat} {written : Written} {t : List Char} {s : Sequence}
    (h : Makes (decoder depth) t s) (ht : Brackets written t) :
    ∃ simples combinator, simples ≠ [] ∧
      Gathered (Json.list (0 < depth - 1) (Simple.decoder (depth - 1 - 1)))
        (fun v => written.Has "simples" 0 v) (some simples) ∧
      Gathered (Json.option (Combinator.decoder (depth - 1)))
        (fun v => written.Has "combinator" 1 v) combinator := by
  obtain ⟨combinator, hd, hcombinator⟩ := decoder_eq depth
  rw [hd] at h
  obtain ⟨parts, hparts, hcheck⟩ := h.checked_inv
  have hconsumes : decide (0 < depth) = true →
      ConsumesFields (sequenceRecord (depth - 1) combinator).fields := by
    intro hroom
    rw [hcombinator (of_decide_eq_true hroom)]
    exact consumesFields (Combinator.consumes_decoder _)
  obtain ⟨hroom, fields, hfills, hfinish⟩ := hparts.record_inv hconsumes ht
  obtain rfl := hcombinator (of_decide_eq_true hroom)
  have hsimples := (column_simples _ _).gathered hfills
  cases hfield : fields.simples with
  | none =>
      simp only [sequenceRecord, hfield] at hfinish
      cases hfinish
  | some simples =>
      simp only [sequenceRecord, hfield] at hfinish
      cases hfinish
      rw [hfield] at hsimples
      refine ⟨simples, fields.combinator, ?_, hsimples, (column_combinator _ _).gathered hfills⟩
      rintro rfl
      cases hcheck

/-- The sequence of a combinator is made of what is written. -/
theorem Combinator.makes_inv {depth : Nat} {written : Written} {t : List Char} {c : Combinator}
    (h : Makes (decoder depth) t c) (ht : Brackets written t) :
    ∃ target, Gathered (Sequence.decoder (depth - 1)) (fun v => written.Has "sequence" 1 v)
      target := by
  obtain ⟨target, hd, htarget⟩ := decoder_eq depth
  rw [hd] at h
  have hconsumes : decide (0 < depth) = true →
      ConsumesFields (combinatorRecord (depth - 1) target).fields := by
    intro hroom
    rw [htarget (of_decide_eq_true hroom)]
    exact consumesFields (Sequence.consumes_decoder _)
  obtain ⟨hroom, fields, hfills, -⟩ := h.record_inv hconsumes ht
  obtain rfl := htarget (of_decide_eq_true hroom)
  exact ⟨fields.target, (column_target _ _).gathered hfills⟩

/-! ## Nothing is made of a flaw -/

theorem Attribute.FlawedText.not_makes {t : List Char} (h : FlawedText t) (depth : Nat)
    (a : Attribute) : ¬Makes (decoder depth) t a := by
  intro hmakes
  cases h with
  | @missing written _ u op ht hop hu hcompares hv =>
      obtain ⟨literal, hliteral, htakes⟩ := makes_inv hmakes ht hop hu
      have hnone : literal.join = none := by
        cases literal with
        | none => rfl
        | some o =>
            obtain ⟨v, hwritten, hmade⟩ := hliteral.written_of rfl
            obtain rfl := hv v hwritten
            exact hmade.eq fun w hw => gives_option_null hw
      rw [hnone] at htakes
      exact absurd htakes.symm (by simp [Operator.takesLiteral, hcompares])
  | @unexpected written _ u v ht hop hu hv hne =>
      obtain ⟨literal, hliteral, htakes⟩ := makes_inv hmakes ht hop hu
      obtain ⟨o, hmade, rfl⟩ := hliteral.of_written hv
      rcases consumes_string.option_inv (ht.valid_of_has hv) hmade with ⟨hnull, -⟩ | ⟨-, x, rfl, -⟩
      · exact hne hnull
      · cases htakes

theorem Simple.FlawedText.not_makes {t : List Char} (h : FlawedText t) (depth : Nat)
    (s : Simple) : ¬Makes (decoder depth) t s := by
  intro hmakes
  obtain ⟨ht, hm, hkey, hv⟩ := h
  obtain ⟨known, hd, hknown, hfind⟩ := decoder_eq depth
  rw [hd] at hmakes
  obtain ⟨m, key, entry, rfl, hname, hentry, hmade⟩ := hmakes.variant_inv hknown ht
  obtain rfl := List.mem_singleton.1 hm
  obtain rfl := hname.key_unique hkey
  rw [hfind] at hentry
  cases hentry
  obtain ⟨a, ha, -⟩ := hmade.map_inv
  exact hv.not_makes _ a ha

theorem Sequence.FlawedText.not_makes {t : List Char} (h : FlawedText t) (depth : Nat)
    (s : Sequence) : ¬Makes (decoder depth) t s := by
  -- along the chain, to the sequence with the flaw
  induction h generalizing depth s with
  | noSimples ht hsimples hu =>
      intro hmakes
      obtain ⟨simples, -, hne, hgathered, -⟩ := makes_inv hmakes ht
      obtain ⟨made, hmade, heq⟩ := hgathered.of_written hsimples
      cases heq
      have hnone := (Simple.consumes_decoder _).list_inv hu hmade
      exact hne (List.forall₂_nil_left_iff.1 hnone)
  | simple ht hsimples hu hv hsimple =>
      intro hmakes
      obtain ⟨simples, -, -, hgathered, -⟩ := makes_inv hmakes ht
      obtain ⟨made, hmade, -⟩ := hgathered.of_written hsimples
      obtain ⟨x, hx⟩ := (Simple.consumes_decoder _).item_inv hu hmade hv
      exact hsimple.not_makes _ x hx
  | target ht hcombinator hu hv htarget ih =>
      intro hmakes
      obtain ⟨-, combinator, -, -, hgathered⟩ := makes_inv hmakes ht
      obtain ⟨o, ho, -⟩ := hgathered.of_written hcombinator
      rcases (Combinator.consumes_decoder _).option_inv hu.valid ho with ⟨hnull, -⟩ | ⟨-, c, -, hc⟩
      · exact hu.ne_nullText hnull
      · obtain ⟨target, hsequence⟩ := Combinator.makes_inv hc hu
        obtain ⟨x, hx, -⟩ := hsequence.of_written hv
        exact ih _ x hx

theorem Group.FlawedText.not_makes {t : List Char} (h : FlawedText t) (depth : Nat) (g : Group) :
    ¬Makes (decoder depth) t g := by
  intro hmakes
  obtain ⟨ht, hsequences, hu, hv, hsequence⟩ := h
  obtain ⟨-, fields, hfills, -⟩ := hmakes.record_inv (fun _ => consumesFields _) ht
  obtain ⟨made, hmade, -⟩ := ((column_sequences _).gathered hfills).of_written hsequences
  obtain ⟨x, hx⟩ := (Sequence.consumes_decoder _).item_inv hu hmade hv
  exact hsequence.not_makes _ x hx

end SelectorExplain
