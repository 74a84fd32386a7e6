import Mathlib.Data.List.Forall2
import SelectorExplain.Proofs.Json.Skipping

set_option autoImplicit false

/-! # The ways of writing a value

A record need not be written in its canonical form. As an object it may have its members in any
order, and others among them that mean nothing to it, whatever their values; as a list it has its
fields in order and may end before those that can be left out. A word may be written as a variant
with nothing in it. `RecordText`, `VariantText`, `WordText` and `ListText` say what texts there are,
given the texts for the parts; the canonical text is one of them.

A reader that accepts all texts of the parts accepts all texts of the whole (`Accepts`). Here this
is shown of lists and variants, and in `Proofs/Json/Records.lean` of records. -/

namespace SelectorExplain

namespace Json

variable {α β σ : Type}

/-! ## Texts -/

/-- The text of `null`. -/
def nullText : List Char := ['n', 'u', 'l', 'l']

/-- How a field of a record may be written: the texts for its value, and whether it may also be left
    out. -/
structure FieldText where
  name : String
  value : List Char → Prop
  omissible : Bool

/-- A field that is always written. -/
def FieldText.required (name : String) (value : List Char → Prop) : FieldText where
  name
  value
  omissible := false

/-- A field for something that may be absent: then it is `null` or left out. -/
def FieldText.optional (name : String) (value : Option (List Char → Prop)) : FieldText where
  name
  value := value.getD (· = nullText)
  omissible := value.isNone

section

variable (name : String)

@[simp] theorem FieldText.name_required (value : List Char → Prop) :
    (FieldText.required name value).name = name := rfl

@[simp] theorem FieldText.omissible_required (value : List Char → Prop) :
    (FieldText.required name value).omissible = false := rfl

@[simp] theorem FieldText.name_optional (value : Option (List Char → Prop)) :
    (FieldText.optional name value).name = name := rfl

@[simp] theorem FieldText.omissible_optional (value : Option (List Char → Prop)) :
    (FieldText.optional name value).omissible = value.isNone := rfl

end

/-- The members that give the fields, in their order. -/
inductive Given : List FieldText → List (List Char × List Char) → Prop
  | nil : Given [] []
  | field {f : FieldText} {fields : List FieldText} {literal v : List Char}
      {known : List (List Char × List Char)} (hkey : Denotes literal f.name.toList)
      (hv : f.value v) (h : Given fields known) : Given (f :: fields) ((literal, v) :: known)
  | omitted {f : FieldText} {fields : List FieldText} {known : List (List Char × List Char)}
      (hf : f.omissible = true) (h : Given fields known) : Given (f :: fields) known

/-- A member with the name of no field, and any JSON for its value. -/
def Unknown (fields : List FieldText) (m : List Char × List Char) : Prop :=
  Valid m.2 ∧ ∃ key : String, Denotes m.1 key.toList ∧ ∀ f ∈ fields, f.name ≠ key

/-- The items that give the fields, in their order, up to some that may all be left out. -/
inductive InOrder : List FieldText → List (List Char) → Prop
  | omitted {fields : List FieldText} (h : ∀ f ∈ fields, f.omissible = true) : InOrder fields []
  | field {f : FieldText} {fields : List FieldText} {v : List Char} {items : List (List Char)}
      (hv : f.value v) (h : InOrder fields items) : InOrder (f :: fields) (v :: items)

/-- The texts of a record with these fields. -/
inductive RecordText (fields : List FieldText) : List Char → Prop
  | object {known unknown members : List (List Char × List Char)} {t : List Char}
      (hknown : Given fields known) (hunknown : ∀ m ∈ unknown, Unknown fields m)
      (hmembers : members.Perm (known ++ unknown)) (ht : MembersText true members t) :
      RecordText fields ('\x7b' :: (t ++ ['\x7d']))
  | list {items : List (List Char)} {t : List Char} (hitems : InOrder fields items)
      (ht : ItemsText true items t) : RecordText fields ('[' :: (t ++ [']']))

/-- The texts of a list, given the texts of its items. -/
inductive ListText (texts : List (List Char → Prop)) : List Char → Prop
  | mk {items : List (List Char)} {t : List Char}
      (hitems : List.Forall₂ (fun text v => text v) texts items) (ht : ItemsText true items t) :
      ListText texts ('[' :: (t ++ [']']))

/-- The texts of a variant, given the texts of what it carries. -/
inductive VariantText (word : String) (payload : List Char → Prop) : List Char → Prop
  | mk {literal v t : List Char} (hkey : Denotes literal word.toList) (hv : payload v)
      (ht : MembersText true [(literal, v)] t) :
      VariantText word payload ('\x7b' :: (t ++ ['\x7d']))

/-- The texts of a word: it may stand alone, or as a variant with nothing in it. -/
def WordText (word : String) (t : List Char) : Prop :=
  StringText word t ∨ VariantText word (· = nullText) t

/-! ## Readers that accept them -/

/-- The text begins with a quote or a bracket. -/
def Opens (t : List Char) : Prop := ∃ c more, t = c :: more ∧ c ∈ ['"', '[', '\x7b']

theorem Opens.startsItem {t : List Char} (h : Opens t) : StartsItem t := by
  obtain ⟨c, more, rfl, hc⟩ := h
  simp only [List.mem_cons, List.not_mem_nil, or_false] at hc
  rcases hc with rfl | rfl | rfl <;> exact ⟨_, more, rfl, by decide, by decide⟩

/-- The reader makes the value of each of the texts. -/
structure Accepts (d : Decoder α) (texts : List Char → Prop) (a : α) : Prop where
  opens : ∀ {v}, texts v → Opens v
  gives : ∀ {v w}, texts v → Blanks w → Gives d (w ++ v) (.ok a) Delimited

section

variable {d : Decoder α} {texts : List Char → Prop} {a : α}

theorem Accepts.map (h : Accepts d texts a) (f : α → β) : Accepts (f <$> d) texts (f a) where
  opens := h.opens
  gives hv hw := (h.gives hv hw).map f

theorem Accepts.checked (h : Accepts d texts a) {check : α → Except TreeError β} {b : β}
    (hcheck : check a = .ok b) : Accepts (checked check d) texts b where
  opens := h.opens
  gives hv hw := by
    refine (h.gives hv hw).checked (g := fun _ => b) fun x hx => ?_
    cases hx
    exact hcheck

/-- A value in place of an optional one. -/
theorem Accepts.gives_option (h : Accepts d texts a) {v w : List Char} (hv : texts v)
    (hw : Blanks w) : Gives (option d) (w ++ v) (.ok (some a)) Delimited := by
  have hread : Gives d v (.ok a) Delimited := h.gives hv blanks_nil
  obtain ⟨c, more, rfl, hc⟩ := h.opens hv
  simp only [List.mem_cons, List.not_mem_nil, or_false] at hc
  refine Gives.option hw ?_ ?_ hread <;> rcases hc with rfl | rfl | rfl <;> decide

end

theorem gives_option_null {d : Decoder α} {w : List Char} (hw : Blanks w)
    {behind : List Char → Prop} : Gives (option d) (w ++ nullText) (.ok none) behind := by
  refine Gives.token hw (by decide) (Gives.eat ?_)
  exact (gives_word ['u', 'l', 'l']).andReturn fun _ => (none : Option α)

theorem gives_unit {w : List Char} (hw : Blanks w) {behind : List Char → Prop} :
    Gives unit (w ++ nullText) (.ok ()) behind := by
  refine Gives.token hw (by decide) (Gives.eat ?_)
  exact gives_word ['u', 'l', 'l']

theorem accepts_string (s : String) : Accepts string (StringText s) s where
  opens := by
    rintro v ⟨literal, -, rfl⟩
    exact ⟨'"', _, rfl, by decide⟩
  gives hv hw := hv.gives_string hw

/-! ## Lists -/

theorem listed_texts {item : Decoder α} {texts : α → List Char → Prop} {as : List α}
    (h : ∀ a ∈ as, Accepts item (texts a) a) {items : List (List Char)}
    (hitems : List.Forall₂ (fun text v => text v) (as.map texts) items) {first : Bool}
    {t : List Char} (ht : ItemsText first items t) : Listed item first t (.ok as) := by
  induction as generalizing items first t with
  | nil =>
      cases hitems
      obtain ⟨hw⟩ := ht
      exact .close hw
  | cons a as ih =>
      rcases hitems with _ | ⟨hv, hrest⟩
      rcases ht with _ | ⟨hw, hw', hmore⟩
      have ha := h a (by simp)
      have hread : Gives item _ (.ok a) Delimited := ha.gives hv blanks_nil
      have htail := ih (fun x hx => h x (by simp [hx])) hrest hmore
      exact Listed.item hw hw' (ha.opens hv).startsItem hread htail

theorem accepts_list {item : Decoder α} {texts : α → List Char → Prop} {as : List α}
    (h : ∀ a ∈ as, Accepts item (texts a) a) :
    Accepts (list true item) (ListText (as.map texts)) as where
  opens := by
    rintro v ⟨-, -⟩
    exact ⟨'[', _, rfl, by decide⟩
  gives := by
    rintro v w ⟨hitems, ht⟩ hw
    exact (listed_texts h hitems ht).gives_list hw

/-! ## Variants -/

theorem gives_variantText {known : List (String × Option α × Decoder α)}
    {entry : String × Option α × Decoder α} {word : String}
    (hfind : known.find? (·.1 == word) = some entry) {payload : List Char → Prop} {a : α}
    (h : ∀ {v w}, payload v → Blanks w → Gives entry.2.2 (w ++ v) (.ok a) Delimited)
    {t w : List Char} (ht : VariantText word payload t) (hw : Blanks w)
    {behind : List Char → Prop} : Gives (variant true known) (w ++ t) (.ok a) behind := by
  obtain ⟨hkey, hv, ht⟩ := ht
  rcases ht with _ | ⟨hw₁, -, hw₂, hw₃, hmore⟩
  obtain ⟨hw₄⟩ := hmore
  rw [lead, if_pos rfl, List.append_assoc, List.append_assoc]
  exact Gives.variant hkey hfind hw hw₁ hw₂ hw₄ (h hv hw₃)

theorem VariantText.opens {word : String} {payload : List Char → Prop} {t : List Char}
    (h : VariantText word payload t) : Opens t := by
  obtain ⟨-, -, -⟩ := h
  exact ⟨'\x7b', _, rfl, by decide⟩

theorem accepts_variant {known : List (String × Option α × Decoder α)}
    {entry : String × Option α × Decoder α} {word : String}
    (hfind : known.find? (·.1 == word) = some entry) {payload : List Char → Prop} {a : α}
    (h : Accepts entry.2.2 payload a) :
    Accepts (variant true known) (VariantText word payload) a where
  opens := VariantText.opens
  gives ht hw := gives_variantText hfind h.gives ht hw

theorem find?_oneOf {words : List (String × α)} {word : String} {a : α}
    (hfind : words.find? (·.1 == word) = some (word, a)) :
    (words.map fun w => (w.1, some w.2, do unit; return w.2)).find? (·.1 == word) =
      some (word, some a, do unit; return a) := by
  rw [List.find?_map]
  exact congrArg (Option.map _) hfind

theorem accepts_oneOf {words : List (String × α)} {word : String} {a : α}
    (hfind : words.find? (·.1 == word) = some (word, a)) :
    Accepts (oneOf true words) (WordText word) a where
  opens := by
    rintro v (hv | hv)
    · exact (accepts_string word).opens hv
    · exact hv.opens
  gives := by
    intro v w hv hw
    rcases hv with hv | hv
    · exact gives_variant_word true (find?_oneOf hfind) hw hv
    · refine gives_variantText (find?_oneOf hfind) ?_ hv hw
      rintro _ w rfl hw
      exact (gives_unit hw).andReturn fun _ => a

/-! ## Canonical texts -/

/-- A member as it is printed, given how its value is. -/
def printedBy (write : JsonValue → List Char) (m : String × JsonValue) : List Char × List Char :=
  (m.1.toList.flatMap JsonValue.escapeChar, write m.2)

/-- A member as it is printed on one line. -/
def printed (m : String × JsonValue) : List Char × List Char :=
  printedBy (fun v => v.compact.toList) m

theorem membersText_spaced {behind gap w : List Char} (hbehind : Blanks behind) (hgap : Blanks gap)
    (hw : Blanks w) (write : JsonValue → List Char) (members : List (String × JsonValue))
    (first : Bool) :
    MembersText first (members.map (printedBy write))
      (spaced (spacedMember write behind) gap first members ++ w) := by
  induction members generalizing first with
  | nil => exact .close hw
  | cons m members ih =>
      have hrest := ih false
      rw [spaced, List.append_assoc, List.append_assoc, spacedMember, memberText_eq]
      cases first with
      | true => exact .member hgap blanks_nil blanks_nil hbehind hrest
      | false => exact .member blanks_nil hgap blanks_nil hbehind hrest

theorem membersText_printed (members : List (String × JsonValue)) (first : Bool) :
    MembersText first (members.map printed) (membersText first members) := by
  have hspaced := membersText_spaced blanks_nil blanks_nil blanks_nil
    (fun v => v.compact.toList) members first
  rw [List.append_nil, ← membersText_eq_spaced] at hspaced
  exact hspaced

theorem itemsText_printed (items : List JsonValue) (first : Bool) :
    ItemsText first (items.map fun v => v.compact.toList) (itemsText first items) := by
  induction items generalizing first with
  | nil => exact .close blanks_nil
  | cons v items ih => exact .item blanks_nil blanks_nil (ih false)

theorem given_required {name : String} {texts : List Char → Prop} {v : JsonValue}
    (hv : texts v.compact.toList) {fields : List FieldText} {members : List (String × JsonValue)}
    (h : Given fields (members.map printed)) :
    Given (.required name texts :: fields) (((name, v) :: members).map printed) :=
  .field (denotes_escaped _) hv h

theorem given_optional {name : String} {texts : β → List Char → Prop} {toJson : β → JsonValue}
    {b : Option β} (h : ∀ x ∈ b, texts x (toJson x).compact.toList) :
    Given [.optional name (b.map texts)]
      ((JsonValue.optional name (b.map toJson)).map printed) := by
  cases b with
  | none => exact .omitted rfl .nil
  | some x => exact .field (denotes_escaped _) (h x rfl) .nil

theorem recordText_compact {fields : List FieldText} {members : List (String × JsonValue)}
    (h : Given fields (members.map printed)) :
    RecordText fields (JsonValue.obj members).compact.toList := by
  rw [toList_compact_obj]
  refine .object h (List.forall_mem_nil _) ?_ (membersText_printed members true)
  rw [List.append_nil]

/-- A record over several lines, given the texts of its members there. -/
theorem recordText_prettyAt {fields : List FieldText} {members : List (String × JsonValue)}
    (hne : members ≠ []) (level : Nat)
    (h : Given fields (members.map (printedBy fun v => (v.prettyAt (level + 1)).toList))) :
    RecordText fields ((JsonValue.obj members).prettyAt level).toList := by
  have hmembers := membersText_spaced blanks_space (blanks_line (level + 1)) (blanks_line level)
    (fun v => (v.prettyAt (level + 1)).toList) members true
  rw [← toList_prettyMembers] at hmembers
  have hobject := RecordText.object h (List.forall_mem_nil _) (by rw [List.append_nil]) hmembers
  obtain ⟨m, rest, rfl⟩ := List.exists_cons_of_ne_nil hne
  rw [JsonValue.prettyAt]
  · simpa using hobject
  · simp

theorem listText_compact {texts : α → List Char → Prop} {toJson : α → JsonValue} {items : List α}
    (h : ∀ a ∈ items, texts a (toJson a).compact.toList) :
    ListText (items.map texts) (JsonValue.arr (items.map toJson)).compact.toList := by
  rw [toList_compact_arr]
  refine .mk ?_ (itemsText_printed _ true)
  rw [List.forall₂_map_left_iff, List.forall₂_map_right_iff, List.forall₂_map_right_iff,
    List.forall₂_same]
  exact h

theorem variantText_compact {word : String} {payload : List Char → Prop} {v : JsonValue}
    (hv : payload v.compact.toList) :
    VariantText word payload (JsonValue.obj [(word, v)]).compact.toList := by
  rw [toList_compact_obj]
  exact .mk (denotes_escaped _) hv (membersText_printed [(word, v)] true)

theorem stringText_compact (s : String) : StringText s (JsonValue.str s).compact.toList := by
  rw [toList_compact_str]
  exact stringText_quoted s

theorem wordText_compact (word : String) : WordText word (JsonValue.str word).compact.toList :=
  .inl (stringText_compact word)

end Json

end SelectorExplain
