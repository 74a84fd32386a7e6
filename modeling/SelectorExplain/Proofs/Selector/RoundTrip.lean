import SelectorExplain.Command.Basic
import SelectorExplain.Proofs.Json.Compact
import SelectorExplain.Selector.Json

set_option autoImplicit false

/-! # Reading back what has been written

Each type of a selector tree is read back from its own JSON, as far as the levels go that may be
opened (`Json.Reads`). For sequences this is an induction along the chain, at each number of levels.

A sequence has four levels of brackets, and two more for each combinator of its chain; with those of
the group around it, sixty combinators fit into the levels of a text. -/

namespace SelectorExplain

open Json

/-! ## Words -/

theorem Operator.reads_decoder (op : Operator) (room depth : Nat) :
    Reads (decoder room) depth op.toJson op :=
  reads_oneOf (by cases op <;> rfl) _ _

theorem CombinatorKind.reads_decoder (kind : CombinatorKind) (room depth : Nat) :
    Reads (decoder room) depth kind.toJson kind :=
  reads_oneOf (by cases kind <;> rfl) _ _

/-! ## Simple selectors -/

/-- A literal is written exactly when the operator takes one, so that the check lets it pass. -/
theorem Attribute.WellFormed.ofParts_eq {a : Attribute} (h : a.WellFormed) :
    ofParts a.name a.operator a.literal = .ok a := by
  obtain ⟨name, op, literal⟩ := a
  cases literal with
  | none =>
      have hop : op.takesLiteral = false := h.symm
      cases op with
      | present => rfl
      | startsWith | endsWith | contains | equals | includes | dashMatch =>
          exact absurd hop (by decide)
  | some literal =>
      have hop : op.takesLiteral = true := h.symm
      simp only [ofParts, compare, hop, if_true]

theorem Attribute.WellFormed.reads_decoder {a : Attribute} (h : a.WellFormed) (depth : Nat) :
    Reads (decoder depth) depth a.toJson a := by
  have hrecord : Reads ((attributeRecord (depth - 1)).read (0 < depth)) depth a.toJson
      (a.name, a.operator, a.literal) := by
    refine reads_record (fun _ => gathers_cons rfl rfl ((reads_string _ _).field _ _ _ _ _)
      (gathers_cons rfl rfl ((Operator.reads_decoder _ _ _).field _ _ _ _ _) ?_))
      (s := ⟨some a.name, some a.operator, a.literal.map some⟩) ?_
    · cases a.literal with
      | none => exact gathers_nil
      | some literal =>
          exact gathers_cons rfl rfl ((reads_option_string _ _).field _ _ _ _ _) gathers_nil
    · cases a.literal <;> rfl
  exact hrecord.checked h.ofParts_eq

namespace Simple

theorem reads_universal (space : Option String) (depth : Nat) :
    Reads (universalDecoder depth) depth (universal space).payloadJson (universal space) := by
  have hrecord : Reads (universalRecord.read (0 < depth)) depth (.obj (spaceMember space))
      space := by
    cases space with
    | none => exact reads_record (fun _ => gathers_nil) rfl
    | some p =>
        exact reads_record (fun _ =>
          gathers_cons rfl rfl ((reads_option_string _ _).field _ _ _ _ _) gathers_nil) rfl
  exact hrecord.map universal

theorem reads_type (name : String) (space : Option String) (depth : Nat) :
    Reads (typeDecoder depth) depth (type name space).payloadJson (type name space) := by
  have hrecord : Reads (typeRecord.read (0 < depth)) depth
      (.obj (("element_name", .str name) :: spaceMember space)) (name, space) := by
    cases space with
    | none =>
        exact reads_record (fun _ =>
          gathers_cons rfl rfl ((reads_string _ _).field _ _ _ _ _) gathers_nil) rfl
    | some p =>
        exact reads_record (fun _ =>
          gathers_cons rfl rfl ((reads_string _ _).field _ _ _ _ _)
            (gathers_cons rfl rfl ((reads_option_string _ _).field _ _ _ _ _) gathers_nil)) rfl
  exact hrecord.map fun t => type t.1 t.2

theorem reads_id (name : String) (depth : Nat) :
    Reads (idDecoder depth) depth (id name).payloadJson (id name) := by
  have hrecord : Reads ((nameRecord "IdSelector" "id").read (0 < depth)) depth
      (.obj [("id", .str name)]) name :=
    reads_record (fun _ =>
      gathers_cons rfl rfl ((reads_string _ _).field _ _ _ _ _) gathers_nil) rfl
  exact hrecord.map id

theorem reads_className (name : String) (depth : Nat) :
    Reads (classDecoder depth) depth (className name).payloadJson (className name) := by
  have hrecord : Reads ((nameRecord "ClassSelector" "class_name").read (0 < depth)) depth
      (.obj [("class_name", .str name)]) name :=
    reads_record (fun _ =>
      gathers_cons rfl rfl ((reads_string _ _).field _ _ _ _ _) gathers_nil) rfl
  exact hrecord.map className

theorem WellFormed.reads_decoder {s : Simple} (h : s.WellFormed) (depth : Nat) :
    Reads (decoder depth) depth s.toJson s := by
  cases s with
  | universal space => exact reads_variant rfl (reads_universal space _)
  | type name space => exact reads_variant rfl (reads_type name space _)
  | id name => exact reads_variant rfl (reads_id name _)
  | className name => exact reads_variant rfl (reads_className name _)
  | attr test => exact reads_variant rfl ((Attribute.WellFormed.reads_decoder h _).map attr)

end Simple

/-! ## Sequences -/

namespace Sequence

theorem reads_simples {simples : List Simple} (h : ∀ s ∈ simples, s.WellFormed) (depth : Nat) :
    Reads (Json.list (0 < depth) (Simple.decoder (depth - 1))) depth
      (.arr (simples.map Simple.toJson)) simples :=
  reads_list fun s hs => ⟨startsItem_obj _, (h s hs).reads_decoder _⟩

/-- A combinator is read back if its sequence is, one level further in. -/
theorem reads_combinator {target : Sequence} (kind : CombinatorKind) (depth : Nat)
    (h : Reads (decoder (depth - 1)) (depth - 1) target.toJson target) :
    Reads (Combinator.decoder depth) depth (Combinator.toJson ⟨kind, target⟩) ⟨kind, target⟩ := by
  obtain ⟨d, hd, hroom⟩ := Combinator.decoder_eq depth
  rw [hd]
  refine reads_record (s := ⟨some kind, some target⟩) (fun hdepth => ?_) rfl
  rw [hroom hdepth]
  exact gathers_cons rfl rfl ((kind.reads_decoder _ _).field _ _ _ _ _)
    (gathers_cons rfl rfl (h.field _ _ _ _ _) gathers_nil)

/-- The member for the combinator, where there is one. -/
def combinatorMember (c : Option Combinator) : List (String × JsonValue) :=
  JsonValue.optional "combinator" (c.map Combinator.toJson)

theorem toJson_eq (s : Sequence) :
    s.toJson = .obj (simplesMember s.simples :: combinatorMember s.combinator?) := by
  cases s <;> rfl

/-- A sequence is read back from its parts if its combinator is read back. -/
theorem reads_parts {s : Sequence} (hne : s.simples ≠ [])
    (hsimples : ∀ x ∈ s.simples, x.WellFormed) (depth : Nat)
    (hcombinator : ∀ c ∈ s.combinator?, Reads (Combinator.decoder (depth - 1)) (depth - 1)
      c.toJson c) : Reads (decoder depth) depth s.toJson s := by
  obtain ⟨combinator, hd, hroom⟩ := decoder_eq depth
  have hrecord : Reads ((sequenceRecord (depth - 1) combinator).read (0 < depth)) depth s.toJson
      (s.simples, s.combinator?) := by
    rw [toJson_eq]
    refine reads_record (s := ⟨some s.simples, s.combinator?.map some⟩) (fun hdepth =>
      gathers_cons rfl rfl ((reads_simples hsimples _).field _ _ _ _ _) ?_) ?_
    · rw [hroom hdepth]
      cases hc : s.combinator? with
      | none => exact gathers_nil
      | some c =>
          have hoption := (hcombinator c hc).option (toList_compact_obj _) (by decide)
          exact gathers_cons rfl rfl (hoption.field _ _ _ _ _) gathers_nil
    · cases s.combinator? <;> rfl
  rw [hd]
  refine hrecord.checked ?_
  rw [checkParts, List.isEmpty_eq_false_iff.2 hne, ofParts_simples_combinator?]
  rfl

theorem WellFormed.reads_decoder {s : Sequence} (h : s.WellFormed) (depth : Nat) :
    Reads (decoder depth) depth s.toJson s := by
  -- along the chain, at every number of levels: each combinator leaves two less
  induction s generalizing depth with
  | last simples =>
      refine reads_parts (s := .last simples) h.1 h.2 depth fun c hc => ?_
      cases hc
  | chained simples kind target ih =>
      refine reads_parts (s := .chained simples kind target) h.1.1 h.1.2 depth fun c hc => ?_
      cases hc
      exact reads_combinator kind _ (ih h.2 _)

end Sequence

/-! ## Levels -/

theorem Attribute.nesting_toJson (a : Attribute) : a.toJson.nesting = 1 := by
  obtain ⟨name, op, literal⟩ := a
  cases literal <;> rfl

theorem Simple.nesting_toJson (s : Simple) : s.toJson.nesting = 2 := by
  cases s with
  | universal space => cases space <;> rfl
  | type name space => cases space <;> rfl
  | id name => rfl
  | className name => rfl
  | attr test =>
      show JsonValue.nestingOfMembers [(_, test.toJson)] + 1 = 2
      simp [JsonValue.nestingOfMembers, Attribute.nesting_toJson]

namespace Sequence

theorem nesting_simples {simples : List Simple} (h : simples ≠ []) :
    JsonValue.nestingOfItems (simples.map Simple.toJson) = 2 := by
  cases simples with
  | nil => exact absurd rfl h
  | cons s rest =>
      have hrest : JsonValue.nestingOfItems (rest.map Simple.toJson) ≤ 2 := by
        rw [nestingOfItems_le]
        intro v hv
        obtain ⟨s, -, rfl⟩ := List.mem_map.1 hv
        exact Nat.le_of_eq s.nesting_toJson
      rw [List.map_cons, JsonValue.nestingOfItems, s.nesting_toJson, Nat.max_eq_left hrest]

/-- A sequence has four levels, and two more for each combinator. -/
theorem WellFormed.nesting_toJson {s : Sequence} (h : s.WellFormed) :
    s.toJson.nesting = 4 + 2 * s.depth := by
  induction s with
  | last simples =>
      simp only [toJson, simplesMember, JsonValue.nesting, JsonValue.nestingOfMembers,
        nesting_simples h.1, depth]
      omega
  | chained simples kind target ih =>
      have htarget := ih h.2
      simp only [toJson, simplesMember, CombinatorKind.toJson, JsonValue.nesting,
        JsonValue.nestingOfMembers, nesting_simples h.1.1, htarget, depth]
      omega

end Sequence

/-! ## Groups -/

namespace Group

variable {g : Group}

/-- Sixty combinators in a chain fit into the levels of a text, and no more. -/
theorem WellFormed.nesting_le_maxDepth (h : g.WellFormed) :
    g.toJson.nesting ≤ maxDepth ↔ ∀ s ∈ g.sequences, s.depth ≤ 60 := by
  have hsequences : g.toJson.nesting ≤ maxDepth ↔
      ∀ v ∈ g.sequences.map Sequence.toJson, v.nesting ≤ 125 := by
    rw [← nestingOfItems_le, toJson, maxDepth]
    simp only [JsonValue.nesting, JsonValue.nestingOfMembers]
    omega
  rw [hsequences, List.forall_mem_map]
  refine forall₂_congr fun s hs => ?_
  rw [(h s hs).nesting_toJson]
  omega

theorem WellFormed.reads_decoder (h : g.WellFormed) (depth : Nat) :
    Reads (decoder depth) depth g.toJson g := by
  refine reads_record (s := some g.sequences) (fun _ =>
    gathers_cons rfl rfl (Reads.field ?_ _ _ _ _ _) gathers_nil) rfl
  exact reads_list fun s hs => ⟨Sequence.toJson_eq s ▸ startsItem_obj _, (h s hs).reads_decoder _⟩

/-- A text is read back unless a chain of the group is too long. -/
theorem WellFormed.ofJson_toJson (h : g.WellFormed) (hdepth : ∀ s ∈ g.sequences, s.depth ≤ 60) :
    ofJson g.toJson.compact = .ok g := by
  refine decode_ok ?_
  have hread := h.reads_decoder maxDepth
  rw [Reads, limited_of_le (h.nesting_le_maxDepth.2 hdepth)] at hread
  exact hread.delimited

theorem WellFormed.ofJson_toJson_of_lt (h : g.WellFormed) {s : Sequence} (hs : s ∈ g.sequences)
    (hdepth : 60 < s.depth) : ∃ position,
      ofJson g.toJson.compact = .error (.placed .nestedTooDeeply position) := by
  refine decode_error ?_
  have hlevels : maxDepth < g.toJson.nesting :=
    Nat.not_le.1 fun hle => Nat.not_lt.2 (h.nesting_le_maxDepth.1 hle s hs) hdepth
  have hread := h.reads_decoder maxDepth
  rw [Reads, limited_of_lt hlevels] at hread
  exact hread.delimited

theorem WellFormed.parse_eq_ok (h : g.WellFormed) (hdepth : ∀ s ∈ g.sequences, s.depth ≤ 60) :
    parse g.toJson.compact = .ok g := by
  rw [parse, h.ofJson_toJson hdepth]
  rfl

/-- **What has been written is read back** as it was, as long as no chain has more than sixty
    combinators: the brackets of a group with one sequence are nested six deep, and two deeper for
    each combinator. A group with a longer chain is refused. -/
theorem parse_toJson (h : g.WellFormed) :
    (∀ s ∈ g.sequences, (toJson ⟨[s]⟩).nesting = 6 + 2 * s.depth) ∧
      (g.toJson.nesting ≤ maxDepth ↔ ∀ s ∈ g.sequences, s.depth ≤ 60) ∧
      ((∀ s ∈ g.sequences, s.depth ≤ 60) → parse g.toJson.compact = .ok g) ∧
      ((∃ s ∈ g.sequences, 60 < s.depth) → ∃ position, parse g.toJson.compact =
        .error (.invalidInput (Fault.placed .nestedTooDeeply position).message)) := by
  refine ⟨fun s hs => ?_, h.nesting_le_maxDepth, h.parse_eq_ok, ?_⟩
  · simp only [toJson, List.map_cons, List.map_nil, JsonValue.nesting, JsonValue.nestingOfMembers,
      JsonValue.nestingOfItems, (h s hs).nesting_toJson]
    omega
  · rintro ⟨s, hs, hdepth⟩
    obtain ⟨position, hfault⟩ := h.ofJson_toJson_of_lt hs hdepth
    exact ⟨position, by rw [parse, hfault]; rfl⟩

/-- A chain of `*` with that many combinators. -/
def stars : Nat → Sequence
  | 0 => .last [.universal none]
  | n + 1 => .chained [.universal none] .child (stars n)

theorem parse_toJson_stars :
    parse (toJson ⟨[stars 60]⟩).compact = .ok ⟨[stars 60]⟩ ∧
      ∃ position, parse (toJson ⟨[stars 60, stars 61]⟩).compact =
        .error (.invalidInput (Fault.placed .nestedTooDeeply position).message) :=
  ⟨(parse_toJson (g := ⟨[stars 60]⟩) (by decide)).2.2.1 (by decide),
    (parse_toJson (g := ⟨[stars 60, stars 61]⟩) (by decide)).2.2.2 (by decide)⟩

end Group

end SelectorExplain
