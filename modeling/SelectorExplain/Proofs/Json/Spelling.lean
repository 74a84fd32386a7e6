import SelectorExplain.Proofs.Json.Compact
import SelectorExplain.Proofs.Xml.Layout

set_option autoImplicit false

/-! # Spellings of a JSON value

`Spells v text` says that a text is a way of writing a value: its tokens in order, with any blanks
between them. Both layouts in which values are written are spellings (`spells_compact`,
`spells_pretty`).

`parse` reads any value, however deeply it is nested, and gives back what a text spells
(`Spells.parse`). So no text spells two values, and a value can be told from its text in either
layout. -/

namespace SelectorExplain

open JsonValue (nestingOfItems nestingOfMembers)

/-- Induction over a JSON value: lists and objects from what they hold. -/
@[elab_as_elim]
theorem JsonValue.inductionOn {motive : JsonValue → Prop} (v : JsonValue) (null : motive .null)
    (bool : ∀ b, motive (.bool b)) (nat : ∀ n, motive (.nat n)) (str : ∀ s, motive (.str s))
    (arr : ∀ items : List JsonValue, (∀ v ∈ items, motive v) → motive (.arr items))
    (obj : ∀ members : List (String × JsonValue), (∀ m ∈ members, motive m.2) →
      motive (.obj members)) : motive v :=
  @JsonValue.rec motive (fun items => ∀ v ∈ items, motive v) (fun ms => ∀ m ∈ ms, motive m.2)
    (fun m => motive m.2) null bool nat str arr obj (List.forall_mem_nil _)
    (fun _ _ hv hrest => List.forall_mem_cons.2 ⟨hv, hrest⟩) (List.forall_mem_nil _)
    (fun _ _ hm hrest => List.forall_mem_cons.2 ⟨hm, hrest⟩) (fun _ _ hv => hv) v

namespace Json

/-! ## Reading any value -/

/-- Reads a natural number of any size. -/
def wholeNumber : Decoder Nat := do
  match ← digits with
  | [] => Decoder.failNext .invalidNumber
  | ds => return ds.foldl (fun n digit => 10 * n + digit) 0

/-- Reads members up to the closing bracket. As for items, the text that was left at the start
    bounds their number. -/
def pairs (value : Decoder JsonValue) :
    (budget : List Char) → (first : Bool) → Decoder (List (String × JsonValue))
  | [], _ => Decoder.failNext .eofObject
  | _ :: budget, first => do
    if ← Record.moreMembers first then
      Decoder.eat
      let key ← stringRest
      colon
      let v ← value
      let more ← pairs value budget false
      return (key, v) :: more
    else return []

/-- Reads a value; `inner` reads those inside its brackets. -/
def valueAround (inner : Decoder JsonValue) : Decoder JsonValue := do
  match ← Decoder.token with
  | none => Decoder.failNext .eofValue
  | some c =>
    match c with
    | 'n' => do Decoder.eat; word ['u', 'l', 'l']; return .null
    | 't' => do Decoder.eat; word ['r', 'u', 'e']; return .bool true
    | 'f' => do Decoder.eat; word ['a', 'l', 's', 'e']; return .bool false
    | '"' => do Decoder.eat; return .str (← stringRest)
    | '[' => return .arr (← inList true fun here => items inner here.rest true here)
    | '\x7b' => return .obj (← inObject true fun here => pairs inner here.rest true here)
    | c =>
      if c.isDigit then return .nat (← wholeNumber) else Decoder.failNext .expectedValue

/-- Reads a value with fewer than so many levels. -/
def value : (levels : Nat) → Decoder JsonValue
  | 0 => Decoder.failNext .nestedTooDeeply
  | levels + 1 => valueAround (value levels)

/-- Reads a text that consists of one value, however deeply it is nested: there are fewer levels
    than characters. -/
def parse (text : String) : Option JsonValue :=
  match whole (value (text.length + 1)) (.ofString text) with
  | .ok (v, _) => some v
  | .error _ => none

/-! ## Spellings -/

mutual

/-- The text is a way of writing the value. -/
inductive Spells : JsonValue → List Char → Prop
  | null : Spells .null ['n', 'u', 'l', 'l']
  | yes : Spells (.bool true) ['t', 'r', 'u', 'e']
  | no : Spells (.bool false) ['f', 'a', 'l', 's', 'e']
  | nat (n : Nat) : Spells (.nat n) (toString n).toList
  | str (s : String) : Spells (.str s) (quoted s)
  | arr {items : List JsonValue} {t : List Char} (h : SpellsItems true items t) :
      Spells (.arr items) ('[' :: (t ++ [']']))
  | obj {members : List (String × JsonValue)} {t : List Char} (h : SpellsMembers true members t) :
      Spells (.obj members) ('\x7b' :: (t ++ ['\x7d']))

/-- The text has the items up to the end of the list, with a comma in front of each but the first
    one of the list. -/
inductive SpellsItems : (first : Bool) → List JsonValue → List Char → Prop
  | close {first : Bool} {w : List Char} (hw : Blanks w) : SpellsItems first [] w
  | item {first : Bool} {w w' t more : List Char} {v : JsonValue} {rest : List JsonValue}
      (hw : Blanks w) (hw' : Blanks w') (h : Spells v t) (hmore : SpellsItems false rest more) :
      SpellsItems first (v :: rest) (lead first w w' ++ (t ++ more))

/-- The same for the members of an object. -/
inductive SpellsMembers : (first : Bool) → List (String × JsonValue) → List Char → Prop
  | close {first : Bool} {w : List Char} (hw : Blanks w) : SpellsMembers first [] w
  | member {first : Bool} {w w' w₁ w₂ t more : List Char} {key : String} {v : JsonValue}
      {rest : List (String × JsonValue)} (hw : Blanks w) (hw' : Blanks w') (hw₁ : Blanks w₁)
      (hw₂ : Blanks w₂) (h : Spells v t) (hmore : SpellsMembers false rest more) :
      SpellsMembers first ((key, v) :: rest)
        (lead first w w' ++ (memberText key w₁ (w₂ ++ t) ++ more))

end

/-! ## Numbers and words -/

theorem toList_toString (n : Nat) : (toString n).toList = Nat.toDigits 10 n := by simp

theorem isDigit_of_mem_toString {n : Nat} {c : Char} (h : c ∈ (toString n).toList) :
    c.isDigit = true := by
  rw [toList_toString] at h
  exact Nat.isDigit_of_mem_toDigits (by decide) (by decide) h

/-- A number begins with a digit. -/
theorem exists_digit (n : Nat) :
    ∃ c rest, (toString n).toList = c :: rest ∧ c.isDigit = true := by
  cases hchars : (toString n).toList with
  | nil =>
      rw [toList_toString] at hchars
      exact absurd hchars Nat.toDigits_ne_nil
  | cons c rest => exact ⟨c, rest, rfl, isDigit_of_mem_toString (hchars ▸ List.mem_cons_self)⟩

/-- What may stand behind a value is no digit. -/
theorem not_digit_of_behind {c : Char} (h : isBlank c = true ∨ c ∈ [',', ']', '\x7d']) :
    c.isDigit = false := by
  rcases h with hblank | hend
  · simp only [isBlank, Bool.or_eq_true, decide_eq_true_eq] at hblank
    rcases hblank with ((rfl | rfl) | rfl) | rfl <;> rfl
  · simp only [List.mem_cons, List.not_mem_nil, or_false] at hend
    rcases hend with rfl | rfl | rfl <;> rfl

/-- What comes behind does not go on with a digit. -/
def NoDigit (rest : List Char) : Prop := ∀ c ∈ rest.head?, c.isDigit = false

theorem Delimited.noDigit {rest : List Char} (h : Delimited rest) : NoDigit rest :=
  fun c hc => not_digit_of_behind (h c hc)

theorem gives_digits {run : List Char} (hrun : ∀ c ∈ run, c.isDigit = true) :
    Gives digits run (.ok (run.map fun d => d.toNat - 48)) NoDigit := by
  refine ⟨fun rest p hrest => ?_⟩
  have htake : (run ++ rest).takeWhile Char.isDigit = run := (Xml.run_append hrun rest hrest).1
  rw [digits]
  simp only [htake, List.drop_left]
  exact ⟨rfl, rfl⟩

/-- The digits of a number make up its value. -/
theorem foldl_digits_toString (n : Nat) :
    ((toString n).toList.map fun d => d.toNat - 48).foldl (fun n digit => 10 * n + digit) 0 = n := by
  rw [List.foldl_map, toList_toString]
  exact Nat.ofDigitChars_toDigits (by decide) (by decide)

theorem gives_wholeNumber (n : Nat) :
    Gives wholeNumber (toString n).toList (.ok n) Delimited := by
  rw [← List.append_nil (toString n).toList]
  refine (gives_digits fun c hc => isDigit_of_mem_toString hc).bind ?_ fun rest hrest =>
    Delimited.noDigit hrest
  split
  · next hnil =>
      obtain ⟨c, rest, hchars, -⟩ := exists_digit n
      rw [hchars] at hnil
      cases hnil
  · rw [foldl_digits_toString]
    exact gives_pure n

theorem gives_word (chars : List Char) {behind : List Char → Prop} :
    Gives (word chars) chars (.ok ()) behind := by
  induction chars with
  | nil => exact gives_pure ()
  | cons c chars ih =>
      refine ⟨fun rest p hrest => ?_⟩
      show Fits _ _ ((if c = c then (do Decoder.eat; word chars) else _) ⟨c :: (chars ++ rest), p⟩)
      rw [if_pos rfl]
      exact ih.fits rest (p.after c) hrest

/-! ## Reading a spelling -/

/-- What begins with a digit begins with an item. -/
theorem startsItem_digit {c : Char} (hc : c.isDigit = true) (t : List Char) :
    StartsItem (c :: t) := by
  have hbehind : ¬(isBlank c = true ∨ c ∈ [',', ']', '\x7d']) := by
    intro h
    rw [not_digit_of_behind h] at hc
    cases hc
  refine ⟨c, t, rfl, ?_, ?_⟩
  · exact Bool.eq_false_iff.2 fun hblank => hbehind (.inl hblank)
  · rintro rfl
    exact hbehind (.inr (by decide))

theorem Spells.startsItem {v : JsonValue} {t : List Char} (h : Spells v t) : StartsItem t := by
  cases h with
  | nat n =>
      obtain ⟨c, rest, hchars, hdigit⟩ := exists_digit n
      rw [hchars]
      exact startsItem_digit hdigit rest
  | null | yes | no | str | arr | obj => exact ⟨_, _, rfl, by decide, by decide⟩

/-- A number is told from the other values by its first character. -/
theorem gives_valueAround_nat (inner : Decoder JsonValue) (n : Nat) {w : List Char}
    (hw : Blanks w) :
    Gives (valueAround inner) (w ++ (toString n).toList) (.ok (.nat n)) Delimited := by
  have hnumber := (gives_wholeNumber n).andReturn JsonValue.nat
  obtain ⟨c, rest, hchars, hblank, -⟩ := (Spells.nat n).startsItem
  have hdigit : c.isDigit = true := isDigit_of_mem_toString (hchars ▸ List.mem_cons_self)
  rw [hchars] at hnumber ⊢
  refine Gives.token hw hblank ?_
  dsimp only
  split
  -- no digit opens a word, a string or a bracket
  iterate 6 cases hdigit
  rw [if_pos hdigit]
  exact hnumber

section

variable {inner : Decoder JsonValue} {w : List Char}

theorem gives_pairs_end (hw : Blanks w) (first : Bool) (c : Char) (budget : List Char) :
    Gives (pairs inner (c :: budget) first) w (.ok []) (StartsWith '\x7d') := by
  rw [← List.append_nil w]
  exact (gives_moreMembers_end hw first).bind (gives_pure []) fun rest hrest => hrest

/-- One round of the loop over members. -/
theorem gives_pairs_member {w' w₁ t more : List Char} {key : String} {v : JsonValue}
    {members : List (String × JsonValue)} {budget : List Char} (hw : Blanks w) (hw' : Blanks w')
    (hw₁ : Blanks w₁) (hvalue : Gives inner t (.ok v) Delimited)
    (hmore : Gives (pairs inner budget false) more (.ok members) (StartsWith '\x7d'))
    (hend : ∀ rest, StartsWith '\x7d' rest → Delimited (more ++ rest)) (first : Bool) (c : Char) :
    Gives (pairs inner (c :: budget) first) (lead first w w' ++ (memberText key w₁ t ++ more))
      (.ok ((key, v) :: members)) (StartsWith '\x7d') := by
  have hkey : Gives stringRest (key.toList.flatMap JsonValue.escapeChar ++ ['"']) (.ok key)
      Anything := (denotes_escaped _).gives_stringRest
  have hcolon : Gives colon (w₁ ++ [':']) (.ok ()) Anything := gives_colon hw₁
  rw [memberText_eq, memberOf_eq, List.cons_append, List.append_assoc _ _ more,
    List.append_assoc _ _ more]
  refine (gives_moreMembers hw hw' first).bind (Gives.eat ?_) fun rest _ => ⟨_, rfl⟩
  refine hkey.bind ?_ fun rest hrest => trivial
  refine hcolon.bind ?_ fun rest hrest => trivial
  refine hvalue.bind ?_ hend
  exact hmore.andReturn ((key, v) :: ·)

end

/-- A member ends where the text goes on with further members, or ends. -/
theorem SpellsMembers.delimited {members : List (String × JsonValue)} {t : List Char}
    (h : SpellsMembers false members t) {rest : List Char} (hrest : StartsWith '\x7d' rest) :
    Delimited (t ++ rest) := by
  obtain ⟨behind, rfl⟩ := hrest
  cases h with
  | close hw => exact delimited_blanks hw (by decide) behind
  | member hw hw' hw₁ hw₂ hv hmore =>
      rw [List.append_assoc]
      exact delimited_lead hw _ _

mutual

/-- A reader with levels enough reads every spelling. -/
theorem Spells.gives {v : JsonValue} {t : List Char} (h : Spells v t) {levels : Nat}
    (hlevels : v.nesting < levels) {w : List Char} (hw : Blanks w) :
    Gives (value levels) (w ++ t) (.ok v) Delimited := by
  -- along the spelling: brackets take one of the levels, what is inside has the others
  obtain ⟨levels, rfl⟩ := Nat.exists_eq_succ_of_ne_zero (Nat.ne_zero_of_lt hlevels)
  match h with
  | .null =>
      refine Gives.token hw (by decide) (Gives.eat ?_)
      exact (gives_word ['u', 'l', 'l']).andReturn fun _ => JsonValue.null
  | .yes =>
      refine Gives.token hw (by decide) (Gives.eat ?_)
      exact (gives_word ['r', 'u', 'e']).andReturn fun _ => JsonValue.bool true
  | .no =>
      refine Gives.token hw (by decide) (Gives.eat ?_)
      exact (gives_word ['a', 'l', 's', 'e']).andReturn fun _ => JsonValue.bool false
  | .nat n => exact gives_valueAround_nat _ n hw
  | .str s =>
      refine Gives.token hw (by decide) (Gives.eat ?_)
      exact (denotes_escaped _).gives_stringRest.andReturn JsonValue.str
  | @Spells.arr items t hitems =>
      have hlisted := hitems.listed (Nat.lt_of_succ_lt_succ hlevels)
      have hinside : Gives (inList true _) _ _ Delimited :=
        Gives.inList (gives_budgeted hlisted.gives)
      exact Gives.token hw (by decide) (hinside.andReturn JsonValue.arr)
  | @Spells.obj members t hmembers =>
      have hloop := hmembers.gives (Nat.lt_of_succ_lt_succ hlevels)
      have hinside : Gives (inObject true _) _ _ Delimited := Gives.inObject (gives_budgeted hloop)
      exact Gives.token hw (by decide) (hinside.andReturn JsonValue.obj)

theorem SpellsItems.listed {first : Bool} {items : List JsonValue} {t : List Char}
    (h : SpellsItems first items t) {levels : Nat} (hlevels : nestingOfItems items < levels) :
    Listed (value levels) first t (.ok items) := by
  match h with
  | .close hw => exact .close hw
  | .item hw hw' hv hmore =>
      rw [nestingOfItems, Nat.max_lt] at hlevels
      have hrest := hmore.listed hlevels.2
      exact .item hw hw' hv.startsItem (hv.gives hlevels.1 blanks_nil) hrest

theorem SpellsMembers.gives {first : Bool} {members : List (String × JsonValue)} {t : List Char}
    (h : SpellsMembers first members t) {levels : Nat} (hlevels : nestingOfMembers members < levels)
    (budget : List Char) (hbudget : t.length < budget.length) :
    Gives (pairs (value levels) budget first) t (.ok members) (StartsWith '\x7d') := by
  obtain ⟨c, budget, rfl⟩ := List.exists_cons_of_length_pos (Nat.zero_lt_of_lt hbudget)
  match h with
  | .close hw => exact gives_pairs_end hw first c budget
  | @SpellsMembers.member _ w w' w₁ w₂ t more key v rest hw hw' hw₁ hw₂ hv hmore =>
      rw [nestingOfMembers, Nat.max_lt] at hlevels
      have hrounds : more.length < budget.length := by
        simp only [memberText, quoted, List.length_append, List.length_cons] at hbudget
        omega
      have hvalue := hv.gives hlevels.1 hw₂
      have hrest := hmore.gives hlevels.2 budget hrounds
      exact gives_pairs_member hw hw' hw₁ hvalue hrest (fun _ => hmore.delimited) first c

end

mutual

/-- Each level of a value takes characters of its own. -/
theorem Spells.nesting_le {v : JsonValue} {t : List Char} (h : Spells v t) :
    v.nesting ≤ t.length := by
  match h with
  | .null | .yes | .no | .nat _ | .str _ => exact Nat.zero_le _
  | .arr hitems =>
      have hinside := hitems.nesting_le
      simp only [JsonValue.nesting, List.length_cons, List.length_append]
      omega
  | .obj hmembers =>
      have hinside := hmembers.nesting_le
      simp only [JsonValue.nesting, List.length_cons, List.length_append]
      omega

theorem SpellsItems.nesting_le {first : Bool} {items : List JsonValue} {t : List Char}
    (h : SpellsItems first items t) : nestingOfItems items ≤ t.length := by
  match h with
  | .close _ => exact Nat.zero_le _
  | .item _ _ hv hmore =>
      have hfirst := hv.nesting_le
      have hrest := hmore.nesting_le
      simp only [nestingOfItems, List.length_append]
      omega

theorem SpellsMembers.nesting_le {first : Bool} {members : List (String × JsonValue)}
    {t : List Char} (h : SpellsMembers first members t) :
    nestingOfMembers members ≤ t.length := by
  match h with
  | .close _ => exact Nat.zero_le _
  | .member _ _ _ _ hv hmore =>
      have hfirst := hv.nesting_le
      have hrest := hmore.nesting_le
      simp only [nestingOfMembers, memberText, List.length_cons, List.length_append]
      omega

end

/-- What a text spells is read back. -/
theorem Spells.parse {text : String} {v : JsonValue} (h : Spells v text.toList) :
    parse text = some v := by
  have hlevels : v.nesting < text.length + 1 := Nat.lt_succ_of_le h.nesting_le
  obtain ⟨q, hq⟩ := fits_ok_iff.1 ((h.gives hlevels blanks_nil).fits [] {} (by simp [Delimited]))
  rw [List.nil_append, List.append_nil] at hq
  rw [Json.parse, whole, Cursor.ofString, run_bind_ok hq]
  rfl

/-- No text spells two values. -/
theorem Spells.unique {text : String} {v v' : JsonValue} (h : Spells v text.toList)
    (h' : Spells v' text.toList) : v = v' := by
  have hread := h.parse
  rw [h'.parse] at hread
  exact (Option.some.inj hread).symm

/-! ## The two layouts -/

section

variable {α : Type}

/-- What is written one behind the other, each behind a gap and all but the first behind a comma. -/
def spaced (write : α → List Char) (gap : List Char) : (first : Bool) → List α → List Char
  | _, [] => []
  | first, a :: rest =>
    (if first then gap else ',' :: gap) ++ (write a ++ spaced write gap false rest)

end

section

variable {gap w : List Char}

theorem spellsItems_spaced (hgap : Blanks gap) (hw : Blanks w) (write : JsonValue → List Char)
    {items : List JsonValue} (h : ∀ v ∈ items, Spells v (write v)) (first : Bool) :
    SpellsItems first items (spaced write gap first items ++ w) := by
  induction items generalizing first with
  | nil => exact .close hw
  | cons v rest ih =>
      have hv := h v (by simp)
      have hrest := ih (fun x hx => h x (by simp [hx])) false
      rw [spaced, List.append_assoc, List.append_assoc]
      cases first with
      | true => exact .item hgap blanks_nil hv hrest
      | false => exact .item blanks_nil hgap hv hrest

/-- A member whose value stands behind some blanks. -/
def spacedMember (write : JsonValue → List Char) (behind : List Char) (m : String × JsonValue) :
    List Char :=
  memberText m.1 [] (behind ++ write m.2)

theorem spellsMembers_spaced {behind : List Char} (hbehind : Blanks behind) (hgap : Blanks gap)
    (hw : Blanks w) (write : JsonValue → List Char) {members : List (String × JsonValue)}
    (h : ∀ m ∈ members, Spells m.2 (write m.2)) (first : Bool) :
    SpellsMembers first members (spaced (spacedMember write behind) gap first members ++ w) := by
  induction members generalizing first with
  | nil => exact .close hw
  | cons m rest ih =>
      have hv := h m (by simp)
      have hrest := ih (fun x hx => h x (by simp [hx])) false
      rw [spaced, List.append_assoc, List.append_assoc]
      cases first with
      | true => exact .member hgap blanks_nil blanks_nil hbehind hv hrest
      | false => exact .member blanks_nil hgap blanks_nil hbehind hv hrest

end

theorem itemsText_eq_spaced (first : Bool) (items : List JsonValue) :
    itemsText first items = spaced (fun v => v.compact.toList) [] first items := by
  induction items generalizing first with
  | nil => rfl
  | cons v rest ih => rw [itemsText, spaced, ih]; rfl

theorem membersText_eq_spaced (first : Bool) (members : List (String × JsonValue)) :
    membersText first members =
      spaced (spacedMember (fun v => v.compact.toList) []) [] first members := by
  induction members generalizing first with
  | nil => rfl
  | cons m rest ih => rw [membersText, spaced, ih]; rfl

theorem spells_bool (b : Bool) : Spells (.bool b) (if b then "true" else "false").toList := by
  cases b with
  | true => exact .yes
  | false => exact .no

/-- The text on one line is a spelling. -/
theorem spells_compact (v : JsonValue) : Spells v v.compact.toList := by
  induction v using JsonValue.inductionOn with
  | null => exact .null
  | bool b => exact spells_bool b
  | nat n => exact .nat n
  | str s =>
      rw [toList_compact_str]
      exact .str s
  | arr items ih =>
      have hitems := spellsItems_spaced blanks_nil blanks_nil _ ih true
      rw [List.append_nil, ← itemsText_eq_spaced] at hitems
      rw [toList_compact_arr]
      exact .arr hitems
  | obj members ih =>
      have hmembers := spellsMembers_spaced blanks_nil blanks_nil blanks_nil
        (fun v => v.compact.toList) ih true
      rw [List.append_nil, ← membersText_eq_spaced] at hmembers
      rw [toList_compact_obj]
      exact .obj hmembers

theorem blanks_space : Blanks [' '] := by
  intro c hc
  rw [List.mem_singleton.1 hc]
  rfl

theorem blanks_line (level : Nat) : Blanks (JsonValue.line level).toList := by
  intro c hc
  rcases Xml.mem_line hc with rfl | rfl
  · rfl
  · rfl

theorem toList_prettyItems (level : Nat) (items : List JsonValue) :
    (JsonValue.prettyItems level items).toList =
      spaced (fun v => (v.prettyAt level).toList) (JsonValue.line level).toList true items := by
  induction items with
  | nil => rfl
  | cons v rest ih =>
      cases rest with
      | nil => simp [JsonValue.prettyItems, spaced]
      | cons next rest =>
          rw [JsonValue.prettyItems, String.toList_append, ih]
          · simp [spaced]
          · simp

theorem toList_prettyMembers (level : Nat) (members : List (String × JsonValue)) :
    (JsonValue.prettyMembers level members).toList =
      spaced (spacedMember (fun v => (v.prettyAt level).toList) [' '])
        (JsonValue.line level).toList true members := by
  induction members with
  | nil => rfl
  | cons m rest ih =>
      obtain ⟨key, v⟩ := m
      cases rest with
      | nil => simp [JsonValue.prettyMembers, spaced, spacedMember, memberText, toList_quote]
      | cons next rest =>
          rw [JsonValue.prettyMembers, String.toList_append, ih]
          · simp [spaced, spacedMember, memberText, toList_quote]
          · simp

/-- The text over several lines is a spelling. -/
theorem spells_prettyAt (v : JsonValue) (level : Nat) : Spells v (v.prettyAt level).toList := by
  induction v using JsonValue.inductionOn generalizing level with
  | null =>
      rw [JsonValue.prettyAt]
      exact .null
  | bool b =>
      rw [JsonValue.prettyAt]
      exact spells_bool b
  | nat n =>
      rw [JsonValue.prettyAt]
      exact .nat n
  | str s =>
      rw [JsonValue.prettyAt, toList_quote]
      exact .str s
  | arr items ih =>
      cases items with
      | nil =>
          rw [JsonValue.prettyAt]
          exact .arr (.close blanks_nil)
      | cons first rest =>
          have hitems := spellsItems_spaced (blanks_line (level + 1)) (blanks_line level) _
            (fun v hv => ih v hv (level + 1)) true
          rw [← toList_prettyItems] at hitems
          rw [JsonValue.prettyAt]
          · simpa using Spells.arr hitems
          · simp
  | obj members ih =>
      cases members with
      | nil =>
          rw [JsonValue.prettyAt]
          exact .obj (.close blanks_nil)
      | cons first rest =>
          have hmembers := spellsMembers_spaced blanks_space (blanks_line (level + 1))
            (blanks_line level) (fun v => (v.prettyAt (level + 1)).toList)
            (fun m hm => ih m hm (level + 1)) true
          rw [← toList_prettyMembers] at hmembers
          rw [JsonValue.prettyAt]
          · simpa using Spells.obj hmembers
          · simp

theorem spells_pretty (v : JsonValue) : Spells v v.pretty.toList := spells_prettyAt v 0

/-- A value can be told from its text on one line. -/
theorem compact_injective {v v' : JsonValue} (h : v.compact = v'.compact) : v = v' := by
  have hv := spells_compact v
  rw [h] at hv
  exact hv.unique (spells_compact v')

/-- A value can be told from its text over several lines. -/
theorem pretty_injective {v v' : JsonValue} (h : v.pretty = v'.pretty) : v = v' := by
  have hv := spells_pretty v
  rw [h] at hv
  exact hv.unique (spells_pretty v')

end Json

end SelectorExplain
