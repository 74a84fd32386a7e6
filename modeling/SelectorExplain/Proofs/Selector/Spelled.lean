import SelectorExplain.Proofs.Json.Records
import SelectorExplain.Proofs.Selector.RoundTrip

set_option autoImplicit false

/-! # Reading a tree from any spelling

A selector tree can be spelled in many ways: at each of its records there is the choice between an
object and a list, of the order of the members, of what stands among them and of whether something
absent is left out; words may be variants, and there are the blanks between tokens. `Group.Spelled`
says what all these texts are, one clause for each type of the tree, and each of them is read as the
group (`Group.parse_of_spelled`).

The readers are met type by type. A sequence has five levels of brackets, one for an operator that
is written as a variant, and two more for each combinator of its chain. -/

namespace SelectorExplain

open Json

/-! ## Spellings -/

/-- The texts of an attribute selector. -/
def Attribute.Spelled (a : Attribute) : List Char → Prop :=
  RecordText
    [.required "name" (StringText a.name), .required "operator" (WordText a.operator.name),
      .optional "literal" (a.literal.map StringText)]

namespace Simple

/-- The field for a namespace prefix. -/
def spaceField (space : Option String) : FieldText :=
  .optional "namespace_prefix" (space.map StringText)

/-- The texts of what a simple selector says, without the word for its kind. -/
def PayloadSpelled : Simple → List Char → Prop
  | universal space => RecordText [spaceField space]
  | type name space => RecordText [.required "element_name" (StringText name), spaceField space]
  | id name => RecordText [.required "id" (StringText name)]
  | className name => RecordText [.required "class_name" (StringText name)]
  | attr test => test.Spelled

/-- The texts of a simple selector. -/
def Spelled (s : Simple) : List Char → Prop := VariantText (keyword s.kind) s.PayloadSpelled

end Simple

/-- The field for the simple selectors at the head of a sequence. -/
def Sequence.simplesField (simples : List Simple) : FieldText :=
  .required "simples" (ListText (simples.map Simple.Spelled))

/-- The texts of a combinator, given those of its sequence. -/
def CombinatorKind.SpelledWith (kind : CombinatorKind) (target : List Char → Prop) :
    List Char → Prop :=
  RecordText [.required "kind" (WordText kind.name), .required "sequence" target]

/-- The texts of a sequence. -/
def Sequence.Spelled : Sequence → List Char → Prop
  | last simples => RecordText [simplesField simples, .optional "combinator" none]
  | chained simples kind target =>
    RecordText
      [simplesField simples, .optional "combinator" (some (kind.SpelledWith target.Spelled))]

/-- The texts of a combinator. -/
def Combinator.Spelled (c : Combinator) : List Char → Prop := c.kind.SpelledWith c.target.Spelled

/-- The texts of a group, without blanks around them. -/
def Group.Spelled (g : Group) : List Char → Prop :=
  RecordText [.required "sequences" (ListText (g.sequences.map Sequence.Spelled))]

theorem Sequence.spelled_eq (s : Sequence) :
    s.Spelled = RecordText
      [simplesField s.simples, .optional "combinator" (s.combinator?.map Combinator.Spelled)] := by
  cases s <;> rfl

/-! ## The canonical text -/

theorem Attribute.spelled_compact (a : Attribute) : a.Spelled a.toJson.compact.toList := by
  refine recordText_compact (given_required (stringText_compact _) ?_)
  exact given_required (wordText_compact _) (given_optional fun x _ => stringText_compact x)

theorem Simple.spelled_compact (s : Simple) : s.Spelled s.toJson.compact.toList := by
  refine variantText_compact ?_
  cases s with
  | universal space => exact recordText_compact (given_optional fun x _ => stringText_compact x)
  | type name space =>
      refine recordText_compact (given_required (stringText_compact _) ?_)
      exact given_optional fun x _ => stringText_compact x
  | id name => exact recordText_compact (given_required (stringText_compact _) .nil)
  | className name => exact recordText_compact (given_required (stringText_compact _) .nil)
  | attr test => exact test.spelled_compact

namespace Sequence

theorem spelled_compact_of_parts {s : Sequence}
    (h : ∀ c ∈ s.combinator?, c.Spelled c.toJson.compact.toList) :
    s.Spelled s.toJson.compact.toList := by
  rw [spelled_eq, toJson_eq]
  refine recordText_compact (given_required ?_ (given_optional h))
  exact listText_compact fun x _ => x.spelled_compact

theorem spelled_compact (s : Sequence) : s.Spelled s.toJson.compact.toList := by
  induction s with
  | last simples => exact spelled_compact_of_parts nofun
  | chained simples kind target ih =>
      refine spelled_compact_of_parts ?_
      rintro _ ⟨⟩
      exact recordText_compact (given_required (wordText_compact _) (given_required ih .nil))

end Sequence

theorem Group.spelled_compact (g : Group) : g.Spelled g.toJson.compact.toList := by
  refine recordText_compact (given_required ?_ .nil)
  exact listText_compact fun s _ => s.spelled_compact

/-! ## Words -/

theorem Operator.find?_name (op : Operator) :
    (all.map fun op => (op.name, op)).find? (·.1 == op.name) = some (op.name, op) := by
  cases op <;> rfl

theorem Operator.accepts_decoder (op : Operator) (depth : Nat) :
    Accepts (decoder (depth + 1)) (WordText op.name) op :=
  accepts_oneOf op.find?_name

theorem CombinatorKind.accepts_decoder (kind : CombinatorKind) (depth : Nat) :
    Accepts (decoder (depth + 1)) (WordText kind.name) kind :=
  accepts_oneOf (by cases kind <;> rfl)

/-! ## Simple selectors -/

/-- What has been read of an attribute selector when these fields have been. -/
def Attribute.gathered (a : Attribute) (names : List String) : AttributeFields where
  name := kept "name" a.name names
  operator := kept "operator" a.operator names
  literal := kept "literal" a.literal names

theorem Attribute.readsRecord (a : Attribute) (depth : Nat) :
    ReadsRecord (attributeRecord (depth + 1))
      [.required "name" (StringText a.name), .required "operator" (WordText a.operator.name),
        .optional "literal" (a.literal.map StringText)]
      a.gathered (a.name, a.operator, a.literal) where
  start := rfl
  names := by simp
  reads := by
    refine .cons (readsField_required (accepts_string _) (fun _ => rfl) fun names => ?_)
      (.cons (readsField_required (a.operator.accepts_decoder _) (fun _ => rfl) fun names => ?_)
        (.cons (readsField_optional (fun x _ => accepts_string x) (fun _ => rfl) fun names => ?_)
          .nil))
    all_goals simp [gathered, kept_cons_of_ne]
  finish := by
    intro names h
    obtain ⟨hname, hoperator, hliteral⟩ : "name" ∈ names ∧ "operator" ∈ names ∧
        (a.literal.isNone = false → "literal" ∈ names) := by
      simpa using h
    simp only [gathered, attributeRecord, kept_of_mem hname, kept_of_mem hoperator,
      join_kept hliteral]

/-- One level is for the record, and one for an operator that is written as a variant. -/
theorem Attribute.WellFormed.accepts_decoder {a : Attribute} (h : a.WellFormed) (depth : Nat) :
    Accepts (decoder (depth + 2)) a.Spelled a :=
  (a.readsRecord depth).accepts.checked h.ofParts_eq

namespace Simple

theorem readsRecord_universal (space : Option String) :
    ReadsRecord universalRecord [spaceField space] (kept "namespace_prefix" space) space where
  start := rfl
  names := by simp
  reads := by
    refine .cons (readsField_optional (fun x _ => accepts_string x) (fun _ => rfl) fun names => ?_)
      .nil
    simp
  finish := by
    intro names h
    have hspace : space.isNone = false → "namespace_prefix" ∈ names := by simpa [spaceField] using h
    exact congrArg Except.ok (join_kept hspace)

theorem readsRecord_type (name : String) (space : Option String) :
    ReadsRecord typeRecord [.required "element_name" (StringText name), spaceField space]
      (fun names => ⟨kept "element_name" name names, kept "namespace_prefix" space names⟩)
      (name, space) where
  start := rfl
  names := by simp [spaceField]
  reads := by
    refine .cons (readsField_required (accepts_string _) (fun _ => rfl) fun names => ?_)
      (.cons (readsField_optional (fun x _ => accepts_string x) (fun _ => rfl) fun names => ?_)
        .nil)
    all_goals simp [kept_cons_of_ne]
  finish := by
    intro names h
    obtain ⟨hname, hspace⟩ : "element_name" ∈ names ∧
        (space.isNone = false → "namespace_prefix" ∈ names) := by
      simpa [spaceField] using h
    simp only [typeRecord, kept_of_mem hname, join_kept hspace]

theorem readsRecord_name (record field name : String) :
    ReadsRecord (nameRecord record field) [.required field (StringText name)] (kept field name)
      name where
  start := by simp [nameRecord, kept]
  names := by simp
  reads := by
    refine .cons (readsField_required (accepts_string _) (fun _ => rfl) fun names => ?_) .nil
    simp
  finish := by
    intro names h
    have hname : field ∈ names := by simpa using h
    simp only [nameRecord, kept_of_mem hname]

theorem WellFormed.accepts_decoder {s : Simple} (h : s.WellFormed) (depth : Nat) :
    Accepts (decoder (depth + 3)) s.Spelled s := by
  cases s with
  | universal space =>
      exact accepts_variant rfl ((readsRecord_universal space).accepts.map universal)
  | type name space =>
      exact accepts_variant rfl ((readsRecord_type name space).accepts.map fun t => type t.1 t.2)
  | id name => exact accepts_variant rfl ((readsRecord_name _ _ name).accepts.map id)
  | className name => exact accepts_variant rfl ((readsRecord_name _ _ name).accepts.map className)
  | attr test =>
      exact accepts_variant rfl ((Attribute.WellFormed.accepts_decoder h depth).map attr)

end Simple

/-! ## Sequences -/

theorem Combinator.readsRecord {kind : CombinatorKind} {target : Sequence} {depth : Nat}
    {d : Decoder Sequence} (h : Accepts d target.Spelled target) :
    ReadsRecord (combinatorRecord (depth + 1) d)
      [.required "kind" (WordText kind.name), .required "sequence" target.Spelled]
      (fun names => ⟨kept "kind" kind names, kept "sequence" target names⟩) ⟨kind, target⟩ where
  start := rfl
  names := by simp
  reads := by
    refine .cons (readsField_required (kind.accepts_decoder _) (fun _ => rfl) fun names => ?_)
      (.cons (readsField_required h (fun _ => rfl) fun names => ?_) .nil)
    all_goals simp [kept_cons_of_ne]
  finish := by
    intro names h
    obtain ⟨hkind, htarget⟩ : "kind" ∈ names ∧ "sequence" ∈ names := by simpa using h
    simp only [combinatorRecord, kept_of_mem hkind, kept_of_mem htarget]

namespace Sequence

theorem readsRecord {simples : List Simple} (hsimples : ∀ s ∈ simples, s.WellFormed)
    {c : Option Combinator} {depth : Nat} {d : Decoder Combinator}
    (h : ∀ x ∈ c, Accepts d x.Spelled x) :
    ReadsRecord (sequenceRecord (depth + 4) d)
      [simplesField simples, .optional "combinator" (c.map Combinator.Spelled)]
      (fun names => ⟨kept "simples" simples names, kept "combinator" c names⟩) (simples, c) where
  start := rfl
  names := by simp [simplesField]
  reads := by
    refine .cons (readsField_required
        (accepts_list fun s hs => (hsimples s hs).accepts_decoder depth) (fun _ => rfl)
        fun names => ?_)
      (.cons (readsField_optional h (fun _ => rfl) fun names => ?_) .nil)
    all_goals simp [kept_cons_of_ne]
  finish := by
    intro names h
    obtain ⟨hsimples, hc⟩ : "simples" ∈ names ∧ (c.isNone = false → "combinator" ∈ names) := by
      simpa [simplesField] using h
    simp only [sequenceRecord, kept_of_mem hsimples, join_kept hc]

/-- A sequence is read if its combinator is, one level further in. -/
theorem accepts_parts {s : Sequence} (hne : s.simples ≠ [])
    (hsimples : ∀ x ∈ s.simples, x.WellFormed) {depth : Nat} (hdepth : 4 ≤ depth)
    (h : ∀ c ∈ s.combinator?, Accepts (Combinator.decoder depth) c.Spelled c) :
    Accepts (decoder (depth + 1)) s.Spelled s := by
  obtain ⟨depth, rfl⟩ := Nat.exists_eq_add_of_le' hdepth
  rw [spelled_eq]
  refine (readsRecord hsimples h).accepts.checked ?_
  rw [checkParts, List.isEmpty_eq_false_iff.2 hne, ofParts_simples_combinator?]
  rfl

theorem WellFormed.accepts_decoder {s : Sequence} (h : s.WellFormed) {depth : Nat}
    (hdepth : 5 + 2 * s.depth ≤ depth) : Accepts (decoder depth) s.Spelled s := by
  -- along the chain: a combinator and the sequence in it take a level each
  induction s generalizing depth with
  | last simples =>
      have hlevels : 5 ≤ depth := hdepth
      obtain ⟨depth, rfl⟩ := Nat.exists_eq_add_of_le' hlevels
      exact accepts_parts (s := .last simples) h.1 h.2 (by omega) nofun
  | chained simples kind target ih =>
      have hlevels : 7 + 2 * target.depth ≤ depth := by
        rw [Sequence.depth] at hdepth
        omega
      obtain ⟨depth, rfl⟩ := Nat.exists_eq_add_of_le' (Nat.le_of_add_right_le hlevels)
      refine accepts_parts (s := .chained simples kind target) h.1.1 h.1.2 (by omega) ?_
      rintro _ ⟨⟩
      exact (Combinator.readsRecord (ih h.2 (by omega))).accepts

end Sequence

/-! ## Groups -/

namespace Group

variable {g : Group}

theorem readsRecord {depth : Nat}
    (h : ∀ s ∈ g.sequences, Accepts (Sequence.decoder depth) s.Spelled s) :
    ReadsRecord (groupRecord (depth + 1))
      [.required "sequences" (ListText (g.sequences.map Sequence.Spelled))]
      (kept "sequences" g.sequences) g where
  start := rfl
  names := by simp
  reads := by
    refine .cons (readsField_required (accepts_list h) (fun _ => rfl) fun names => ?_) .nil
    simp
  finish := by
    intro names h
    have hsequences : "sequences" ∈ names := by simpa using h
    simp only [groupRecord, kept_of_mem hsequences]

/-- Sixty combinators fit into the levels of a text, in whatever way the group is written. -/
theorem WellFormed.accepts_decoder (h : g.WellFormed) (hdepth : ∀ s ∈ g.sequences, s.depth ≤ 60) :
    Accepts (decoder maxDepth) g.Spelled g := by
  have hsequences : ∀ s ∈ g.sequences, Accepts (Sequence.decoder 125) s.Spelled s := by
    intro s hs
    have hchain := hdepth s hs
    exact (h s hs).accepts_decoder (by omega)
  exact (readsRecord hsequences).accepts

/-- **Reading does not depend on the spelling.** A well-formed group without long chains is read
    from every text of it, with any blanks around it; its canonical text is one of these. -/
theorem parse_of_spelled (hwf : g.WellFormed) (hdepth : ∀ s ∈ g.sequences, s.depth ≤ 60) :
    g.Spelled g.toJson.compact.toList ∧
      ∀ {text : String} {t w w' : List Char}, g.Spelled t → Blanks w → Blanks w' →
        text.toList = w ++ (t ++ w') → parse text = .ok g := by
  refine ⟨g.spelled_compact, ?_⟩
  intro text t w w' ht hw hw' htext
  have hread : Gives (decoder maxDepth) (w ++ t) (.ok g) Delimited :=
    (hwf.accepts_decoder hdepth).gives ht hw
  rw [parse, ofJson, decode_ok_blanks (htext.trans (List.append_assoc _ _ _).symm) hw' hread]
  rfl

/-- A text with a member that means nothing, members in another order, a null, a list in place of an
    object, and a word with nothing in it. -/
def respelled : String :=
  "\x7b\"more\":[\x7b\x7d],\"sequences\":[\x7b\"combinator\":null, \"simples\":" ++
    "[\x7b\"attribute\":[\"a\",\x7b\"exists\":null\x7d]\x7d]\x7d]\x7d"

/-- What that text means. -/
def respelledGroup : Group := ⟨[.last [.attr (.present "a")]]⟩

theorem spelled_respelled : respelledGroup.Spelled respelled.toList := by
  have hoperator : WordText "exists" _ :=
    .inr (.mk (denotes_escaped _) rfl (membersText_printed [("exists", .null)] true))
  have hattribute : (Attribute.present "a").Spelled _ :=
    .list (.field (stringText_quoted "a") (.field hoperator (.omitted (by decide))))
      (.item blanks_nil blanks_nil (.item blanks_nil blanks_nil (.close blanks_nil)))
  have hsimple : (Simple.attr (.present "a")).Spelled _ :=
    .mk (denotes_escaped _) hattribute
      (.member blanks_nil blanks_nil blanks_nil blanks_nil (.close blanks_nil))
  have hsimples : ListText [(Simple.attr (.present "a")).Spelled] _ :=
    .mk (.cons hsimple .nil) (.item blanks_nil blanks_nil (.close blanks_nil))
  have hsequence : (Sequence.last [.attr (.present "a")]).Spelled _ :=
    .object (.field (denotes_escaped _) hsimples (.field (denotes_escaped _) rfl .nil))
      (List.forall_mem_nil _) (.swap _ _ _)
      (.member blanks_nil blanks_nil blanks_nil blanks_nil
        (.member blanks_nil blanks_space blanks_nil blanks_nil (.close blanks_nil)))
  have hsequences : ListText [(Sequence.last [.attr (.present "a")]).Spelled] _ :=
    .mk (.cons hsequence .nil) (.item blanks_nil blanks_nil (.close blanks_nil))
  have hobject : Valid ['\x7b', '\x7d'] :=
    .object (t := []) (List.forall_mem_nil _) (List.forall_mem_nil _) (.close blanks_nil)
  have hitems : ItemsText true [['\x7b', '\x7d']] _ :=
    .item blanks_nil blanks_nil (.close blanks_nil)
  have hmore : Valid ['[', '\x7b', '\x7d', ']'] :=
    .list (List.forall_mem_singleton.2 hobject) hitems
  have hunknown : ∀ texts, Unknown [.required "sequences" texts] (['m', 'o', 'r', 'e'], _) :=
    fun _ => ⟨hmore, "more", denotes_escaped "more".toList, by simp⟩
  have hgroup : respelledGroup.Spelled _ :=
    .object (.field (denotes_escaped _) hsequences .nil) (List.forall_mem_singleton.2 (hunknown _))
      (.swap _ _ _)
      (.member blanks_nil blanks_nil blanks_nil blanks_nil
        (.member blanks_nil blanks_nil blanks_nil blanks_nil (.close blanks_nil)))
  have hchars : respelled.toList = _ :=
    String.toList_append.trans (congrArg₂ (· ++ ·) String.toList_ofList String.toList_ofList)
  rw [hchars]
  exact hgroup

theorem parse_of_spelled_respelled :
    respelledGroup.Spelled respelledGroup.toJson.compact.toList ∧
      parse respelled = .ok respelledGroup := by
  have h := parse_of_spelled (g := respelledGroup) (by decide) (by decide)
  exact ⟨h.1, h.2 spelled_respelled blanks_nil blanks_nil (by simp)⟩

end Group

end SelectorExplain
