import SelectorExplain.Proofs.Json.Literal

set_option autoImplicit false

/-! # Reading lists, records and variants

What a reader of items makes of a list, what the fields of a record come to when its members are
read one after the other, and what becomes of a variant. `Listed` and `Gathers` follow the text from
left to right and stop at the first problem; the loops of the readers do the same
(`Listed.gives`, `Gathers.gives`), and each round leaves less text than the number of rounds that
are left to it. -/

namespace SelectorExplain

namespace Json

variable {α β σ : Type}

/-- What stands in front of an item or a member: blanks, and behind the first one a comma. -/
def lead (first : Bool) (w w' : List Char) : List Char := if first then w else w ++ ',' :: w'

/-- A loop whose rounds are bounded by the text that is left when it starts: the bracket that closes
    it is left too, so there are more rounds than characters in the loop. -/
theorem gives_budgeted {loop : (budget : List Char) → Decoder α} {t : List Char}
    {r : Except Problem α} {close : Char}
    (h : ∀ budget : List Char, t.length < budget.length →
      Gives (loop budget) t r (StartsWith close)) :
    Gives (fun c => loop c.rest c) t r (StartsWith close) := by
  refine ⟨?_⟩
  rintro rest p ⟨more, rfl⟩
  exact (h (t ++ close :: more) (by simp)).fits (close :: more) p ⟨more, rfl⟩

/-! ## Lists -/

/-- What comes behind begins with an item. -/
def StartsItem (rest : List Char) : Prop :=
  ∃ c more, rest = c :: more ∧ isBlank c = false ∧ c ≠ ']'

theorem StartsItem.append {t : List Char} (h : StartsItem t) (rest : List Char) :
    StartsItem (t ++ rest) := by
  obtain ⟨c, more, rfl, hc⟩ := h
  exact ⟨c, more ++ rest, rfl, hc⟩

theorem gives_moreItems_end {w : List Char} (hw : Blanks w) (first : Bool) :
    Gives (moreItems first) w (.ok false) (StartsWith ']') := by
  refine Gives.token_behind hw ?_
  rintro rest ⟨more, rfl⟩
  exact ⟨']', more, rfl, by decide, fun p => ⟨rfl, rfl⟩⟩

theorem gives_moreItems {w w' : List Char} (hw : Blanks w) (hw' : Blanks w') (first : Bool) :
    Gives (moreItems first) (lead first w w') (.ok true) StartsItem := by
  cases first with
  | true =>
      refine Gives.token_behind hw ?_
      rintro rest ⟨c, more, rfl, hblank, hend⟩
      refine ⟨c, more, rfl, hblank, fun p => ?_⟩
      simp only [if_true]
      exact ⟨rfl, rfl⟩
  | false =>
      refine Gives.token hw (by decide) ?_
      show Gives (Decoder.eat >>= fun _ => _) _ _ _
      refine Gives.eat (Gives.token_behind hw' ?_)
      rintro rest ⟨c, more, rfl, hblank, hend⟩
      refine ⟨c, more, rfl, hblank, fun p => ?_⟩
      simp only []
      exact ⟨rfl, rfl⟩

/-- What the items in a text come to, up to the end of the list or the first problem. -/
inductive Listed (item : Decoder α) : (first : Bool) → List Char → Except Problem (List α) → Prop
  | close {first : Bool} {w : List Char} (hw : Blanks w) : Listed item first w (.ok [])
  | item {first : Bool} {w w' t more : List Char} {a : α} {r : Except Problem (List α)}
      (hw : Blanks w) (hw' : Blanks w') (hstart : StartsItem t)
      (hitem : Gives item t (.ok a) Delimited) (hmore : Listed item false more r) :
      Listed item first (lead first w w' ++ (t ++ more)) (r.map (a :: ·))
  | stop {first : Bool} {w w' t : List Char} (more : List Char) {problem : Problem}
      (hw : Blanks w) (hw' : Blanks w') (hstart : StartsItem t)
      (hitem : Gives item t (.error problem) Anything) :
      Listed item first (lead first w w' ++ (t ++ more)) (.error problem)

theorem delimited_blanks {w : List Char} (hw : Blanks w) {c : Char} (hc : c ∈ [',', ']', '\x7d'])
    (t : List Char) : Delimited (w ++ c :: t) := by
  intro x hx
  cases w with
  | nil =>
      cases hx
      exact .inr hc
  | cons b w =>
      cases hx
      exact .inl (hw _ (by simp))

theorem delimited_lead {w : List Char} (hw : Blanks w) (w' t : List Char) :
    Delimited (lead false w w' ++ t) := by
  rw [lead, if_neg Bool.false_ne_true, List.append_assoc]
  exact delimited_blanks hw (by decide) (w' ++ t)

/-- An item ends where the text goes on with further items, or ends. -/
theorem Listed.delimited {item : Decoder α} {text : List Char} {r : Except Problem (List α)}
    (h : Listed item false text r) {rest : List Char} (hrest : StartsWith ']' rest) :
    Delimited (text ++ rest) := by
  obtain ⟨behind, rfl⟩ := hrest
  cases h with
  | close hw => exact delimited_blanks hw (by decide) behind
  | item hw hw' hstart hitem hmore =>
      rw [List.append_assoc]
      exact delimited_lead hw _ _
  | stop more hw hw' hstart hitem =>
      rw [List.append_assoc]
      exact delimited_lead hw _ _

/-- The loop over items reads what is listed. -/
theorem Listed.gives {item : Decoder α} {first : Bool} {text : List Char}
    {r : Except Problem (List α)} (h : Listed item first text r) :
    ∀ budget : List Char, text.length < budget.length →
      Gives (items item budget first) text r (StartsWith ']') := by
  induction h with
  | @close first w hw =>
      intro budget hbudget
      obtain ⟨_, budget, rfl⟩ := List.exists_cons_of_length_pos (Nat.zero_lt_of_lt hbudget)
      rw [← List.append_nil w]
      exact (gives_moreItems_end hw first).bind (gives_pure []) fun rest hrest => hrest
  | @item first w w' t more a r hw hw' hstart hitem hmore ih =>
      intro budget hbudget
      obtain ⟨_, budget, rfl⟩ := List.exists_cons_of_length_pos (Nat.zero_lt_of_lt hbudget)
      have hrounds : more.length < budget.length := by
        -- an item takes a character at least, so the rounds that are left are enough
        obtain ⟨c, t, rfl, -⟩ := hstart
        simp only [List.length_append, List.length_cons] at hbudget
        omega
      refine (gives_moreItems hw hw' first).bind ?_ fun rest _ => ?_
      · refine hitem.bind ?_ fun rest hrest => hmore.delimited hrest
        exact (ih budget hrounds).andReturn (a :: ·)
      · rw [List.append_assoc]
        exact hstart.append _
  | @stop first w w' t more problem hw hw' hstart hitem =>
      intro budget hbudget
      obtain ⟨_, budget, rfl⟩ := List.exists_cons_of_length_pos (Nat.zero_lt_of_lt hbudget)
      refine (gives_moreItems hw hw' first).bind ?_ fun rest _ => ?_
      · exact hitem.bind_error fun rest _ => trivial
      · rw [List.append_assoc]
        exact hstart.append _

theorem Listed.gives_list {item : Decoder α} {text : List Char} {r : Except Problem (List α)}
    (h : Listed item true text r) {w : List Char} (hw : Blanks w) {behind : List Char → Prop} :
    Gives (list true item) (w ++ '[' :: (text ++ [']'])) r behind := by
  exact Gives.token hw (by decide) (Gives.inList (gives_budgeted h.gives))

/-- A list without room for its brackets. -/
theorem gives_list_full {item : Decoder α} {w : List Char} (hw : Blanks w) (t : List Char)
    {behind : List Char → Prop} :
    Gives (list false item) (w ++ '[' :: t) (.error .nestedTooDeeply) behind := by
  refine Gives.token hw (by decide) ?_
  exact ⟨fun rest p _ => rfl⟩

/-! ## Records -/

theorem gives_moreMembers_end {w : List Char} (hw : Blanks w) (first : Bool) :
    Gives (Record.moreMembers first) w (.ok false) (StartsWith '\x7d') := by
  refine Gives.token_behind hw ?_
  rintro rest ⟨more, rfl⟩
  exact ⟨'\x7d', more, rfl, by decide, fun p => ⟨rfl, rfl⟩⟩

theorem gives_moreMembers {w w' : List Char} (hw : Blanks w) (hw' : Blanks w') (first : Bool) :
    Gives (Record.moreMembers first) (lead first w w') (.ok true) (StartsWith '"') := by
  cases first with
  | true =>
      refine Gives.token_behind hw ?_
      rintro rest ⟨more, rfl⟩
      exact ⟨'"', more, rfl, by decide, fun p => ⟨rfl, rfl⟩⟩
  | false =>
      refine Gives.token hw (by decide) ?_
      show Gives (Decoder.eat >>= fun _ => _) _ _ _
      refine Gives.eat (Gives.token_behind hw' ?_)
      rintro rest ⟨more, rfl⟩
      exact ⟨'"', more, rfl, by decide, fun p => ⟨rfl, rfl⟩⟩

/-- A member: the literal of its key, and its value behind a colon. -/
def memberOf (literal w v : List Char) : List Char := '"' :: (literal ++ '"' :: (w ++ ':' :: v))

/-- A member as it is read: behind its first quote the rest of the key, and the colon with the
    blanks in front of it. -/
theorem memberOf_eq (literal w v : List Char) :
    memberOf literal w v = '"' :: ((literal ++ ['"']) ++ ((w ++ [':']) ++ v)) := by
  simp [memberOf]

/-- A member whose key is written as usual. -/
def memberText (key : String) (w v : List Char) : List Char := quoted key ++ (w ++ (':' :: v))

theorem memberText_eq (key : String) (w v : List Char) :
    memberText key w v = memberOf (key.toList.flatMap JsonValue.escapeChar) w v := by
  simp [memberText, memberOf, quoted]

variable {r : Record σ α}

/-- A member with the key of a field that has not been read. -/
theorem Gives.member {s : σ} {key : String} {literal : List Char} {f : FieldReader σ}
    (hkey : Denotes literal key.toList) (hfind : r.fields.find? (·.name == key) = some f)
    (hseen : f.seen s = false) {w v : List Char} (hw : Blanks w) {o : Except Problem σ}
    {behind : List Char → Prop} (h : Gives (f.read s) v o behind) :
    Gives (r.member s) (memberOf literal w v) o behind := by
  rw [memberOf_eq]
  have hword : Gives stringRest (literal ++ ['"']) (.ok key) Anything := hkey.gives_stringRest
  refine Gives.eat (hword.bind ?_ fun rest hrest => trivial)
  rw [hfind]
  dsimp only
  rw [hseen]
  have hcolon : Gives colon (w ++ [':']) (.ok ()) Anything := gives_colon hw
  exact hcolon.bind h fun rest hrest => trivial

/-- A member with a key that is no field's is passed over. -/
theorem gives_member_unknown {s : σ} {key : String} {literal : List Char}
    (hkey : Denotes literal key.toList) (hfind : r.fields.find? (·.name == key) = none)
    {w v : List Char} (hw : Blanks w) {behind : List Char → Prop}
    (h : Gives skipValue v (.ok ()) behind) :
    Gives (r.member s) (memberOf literal w v) (.ok s) behind := by
  rw [memberOf_eq]
  have hword : Gives stringRest (literal ++ ['"']) (.ok key) Anything := hkey.gives_stringRest
  refine Gives.eat (hword.bind ?_ fun rest hrest => trivial)
  rw [hfind]
  have hcolon : Gives colon (w ++ [':']) (.ok ()) Anything := gives_colon hw
  exact hcolon.bind (h.andReturn fun _ => s) fun rest hrest => trivial

/-- What the members in a text come to, up to the end of the object or the first problem: the fields
    gathered so far are updated by one member after the other, except by those that mean nothing to
    the record. -/
inductive Gathers (r : Record σ α) : (first : Bool) → σ → List Char → Except Problem σ → Prop
  | close {first : Bool} {s : σ} {w : List Char} (hw : Blanks w) : Gathers r first s w (.ok s)
  | member {first : Bool} {s s' : σ} {w w' w'' literal v more : List Char} {key : String}
      {f : FieldReader σ} {o : Except Problem σ} (hw : Blanks w) (hw' : Blanks w')
      (hw'' : Blanks w'') (hkey : Denotes literal key.toList)
      (hfind : r.fields.find? (·.name == key) = some f)
      (hseen : f.seen s = false) (hread : Gives (f.read s) v (.ok s') Delimited)
      (hmore : Gathers r false s' more o) :
      Gathers r first s (lead first w w' ++ (memberOf literal w'' v ++ more)) o
  | unknown {first : Bool} {s : σ} {w w' w'' literal v more : List Char} {key : String}
      {o : Except Problem σ} (hw : Blanks w) (hw' : Blanks w') (hw'' : Blanks w'')
      (hkey : Denotes literal key.toList) (hfind : r.fields.find? (·.name == key) = none)
      (hvalue : Gives skipValue v (.ok ()) Delimited) (hmore : Gathers r false s more o) :
      Gathers r first s (lead first w w' ++ (memberOf literal w'' v ++ more)) o
  | stop {first : Bool} {s : σ} {w w' w'' literal v : List Char} (more : List Char) {key : String}
      {f : FieldReader σ} {problem : Problem} (hw : Blanks w) (hw' : Blanks w')
      (hw'' : Blanks w'') (hkey : Denotes literal key.toList)
      (hfind : r.fields.find? (·.name == key) = some f)
      (hseen : f.seen s = false) (hread : Gives (f.read s) v (.error problem) Anything) :
      Gathers r first s (lead first w w' ++ (memberOf literal w'' v ++ more)) (.error problem)

/-- A member ends where the text goes on with further members, or ends. -/
theorem Gathers.delimited {s : σ} {text : List Char} {o : Except Problem σ}
    (h : Gathers r false s text o) {rest : List Char} (hrest : StartsWith '\x7d' rest) :
    Delimited (text ++ rest) := by
  obtain ⟨behind, rfl⟩ := hrest
  cases h with
  | close hw => exact delimited_blanks hw (by decide) behind
  | member hw | unknown hw | stop _ hw =>
      rw [List.append_assoc]
      exact delimited_lead hw _ _

/-- The loop over members gathers what they come to. -/
theorem Gathers.gives {first : Bool} {s : σ} {text : List Char} {o : Except Problem σ}
    (h : Gathers r first s text o) :
    ∀ budget : List Char, text.length < budget.length →
      Gives (r.members budget first s) text o (StartsWith '\x7d') := by
  induction h with
  | @close first s w hw =>
      intro budget hbudget
      obtain ⟨_, budget, rfl⟩ := List.exists_cons_of_length_pos (Nat.zero_lt_of_lt hbudget)
      rw [← List.append_nil w]
      exact (gives_moreMembers_end hw first).bind (gives_pure s) fun rest hrest => hrest
  | @member first s s' w w' w'' literal v more key f o hw hw' hw'' hkey hfind hseen hread hmore
      ih =>
      intro budget hbudget
      obtain ⟨_, budget, rfl⟩ := List.exists_cons_of_length_pos (Nat.zero_lt_of_lt hbudget)
      have hrounds : more.length < budget.length := by
        -- so does a member, for the quotes of its key
        simp only [memberOf, List.length_append, List.length_cons] at hbudget
        omega
      refine (gives_moreMembers hw hw' first).bind ?_ fun rest _ => ⟨_, rfl⟩
      exact (Gives.member hkey hfind hseen hw'' hread).bind (ih budget hrounds)
        fun rest hrest => hmore.delimited hrest
  | @unknown first s w w' w'' literal v more key o hw hw' hw'' hkey hfind hvalue hmore ih =>
      intro budget hbudget
      obtain ⟨_, budget, rfl⟩ := List.exists_cons_of_length_pos (Nat.zero_lt_of_lt hbudget)
      have hrounds : more.length < budget.length := by
        simp only [memberOf, List.length_append, List.length_cons] at hbudget
        omega
      refine (gives_moreMembers hw hw' first).bind ?_ fun rest _ => ⟨_, rfl⟩
      exact (gives_member_unknown hkey hfind hw'' hvalue).bind (ih budget hrounds)
        fun rest hrest => hmore.delimited hrest
  | @stop first s w w' w'' literal v more key f problem hw hw' hw'' hkey hfind hseen hread =>
      intro budget hbudget
      obtain ⟨_, budget, rfl⟩ := List.exists_cons_of_length_pos (Nat.zero_lt_of_lt hbudget)
      refine (gives_moreMembers hw hw' first).bind ?_ fun rest _ => ⟨_, rfl⟩
      exact (Gives.member hkey hfind hseen hw'' hread).bind_error fun rest _ => trivial

theorem gives_finished {s : σ} {a : α} (hfinish : r.finish s = .ok a)
    {behind : List Char → Prop} : Gives (r.finished s) [] (.ok a) behind := by
  rw [Record.finished, hfinish]
  exact gives_pure a

/-- A record that is written as an object. -/
theorem Gathers.gives_read {text : List Char} {o : Except Problem σ}
    (h : Gathers r true r.start text o) {g : σ → α}
    (hfinish : ∀ s, o = .ok s → r.finish s = .ok (g s)) {w : List Char} (hw : Blanks w)
    {behind : List Char → Prop} :
    Gives (r.read true) (w ++ '\x7b' :: (text ++ ['\x7d'])) (o.map g) behind := by
  refine Gives.token hw (by decide) (Gives.inObject ?_)
  have hmembers : Gives (fun c => r.members c.rest true r.start c) text o (StartsWith '\x7d') :=
    gives_budgeted h.gives
  rw [← List.append_nil text]
  cases o with
  | ok s => exact hmembers.bind (gives_finished (hfinish s rfl)) fun rest hrest => hrest
  | error problem => exact hmembers.bind_error fun rest hrest => hrest

/-- A record without room for its brackets. -/
theorem gives_read_full {w : List Char} (hw : Blanks w) (t : List Char)
    {behind : List Char → Prop} :
    Gives (r.read false) (w ++ '\x7b' :: t) (.error .nestedTooDeeply) behind := by
  refine Gives.token hw (by decide) ?_
  exact ⟨fun rest p _ => rfl⟩

/-! ## Variants -/

variable {known : List (String × Option α × Decoder α)} {behind : List Char → Prop}

theorem gives_variantKey {w literal : List Char} (hw : Blanks w) {key : String}
    (hkey : Denotes literal key.toList) :
    Gives (variantKey true) ('\x7b' :: (w ++ '"' :: (literal ++ ['"']))) (.ok key) behind := by
  refine Gives.eat (Gives.token hw (by decide) ?_)
  exact Gives.eat hkey.gives_stringRest

theorem Gives.variantBody {body : Decoder α} {w w' v : List Char} (hw : Blanks w)
    (hw' : Blanks w') {o : Except Problem α} (h : Gives body v o Delimited) :
    Gives (variantBody body) ((w ++ [':']) ++ (v ++ (w' ++ ['\x7d']))) o behind := by
  have hcolon : Gives colon (w ++ [':']) (.ok ()) Anything := gives_colon hw
  refine hcolon.bind ?_ fun rest hrest => trivial
  have hbehind : ∀ rest, behind rest → Delimited ((w' ++ ['\x7d']) ++ rest) := by
    intro rest _
    rw [List.append_assoc]
    exact delimited_blanks hw' (by decide) rest
  cases o with
  | ok a =>
      refine h.bind (Gives.token hw' (by decide) ?_) hbehind
      exact ⟨fun rest p _ => ⟨rfl, rfl⟩⟩
  | error problem => exact h.bind_error hbehind

/-- A variant that is written as an object. -/
theorem Gives.variant {entry : String × Option α × Decoder α} {key : String} {literal : List Char}
    (hkey : Denotes literal key.toList) (hfind : known.find? (·.1 == key) = some entry)
    {w w₁ w₂ w₃ v : List Char} (hw : Blanks w) (hw₁ : Blanks w₁) (hw₂ : Blanks w₂)
    (hw₃ : Blanks w₃) {o : Except Problem α} (h : Gives entry.2.2 v o Delimited) :
    Gives (variant true known)
      (w ++ '\x7b' :: (w₁ ++ (memberOf literal w₂ v ++ (w₃ ++ ['\x7d'])))) o behind := by
  have htext : w₁ ++ (memberOf literal w₂ v ++ (w₃ ++ ['\x7d'])) =
      (w₁ ++ '"' :: (literal ++ ['"'])) ++ ((w₂ ++ [':']) ++ (v ++ (w₃ ++ ['\x7d']))) := by
    simp [memberOf]
  rw [htext]
  refine Gives.token hw (by decide) ?_
  have hword : Gives (variantKey true) ('\x7b' :: (w₁ ++ '"' :: (literal ++ ['"']))) (.ok key)
      Anything := gives_variantKey hw₁ hkey
  refine hword.bind ?_ fun rest hrest => trivial
  simp only [hfind]
  exact Gives.variantBody hw₂ hw₃ h

/-- A variant without room for its brackets. -/
theorem gives_variant_full {w : List Char} (hw : Blanks w) (t : List Char) :
    Gives (variant false known) (w ++ '\x7b' :: t) (.error .nestedTooDeeply) behind := by
  refine Gives.token hw (by decide) ?_
  exact ⟨fun rest p _ => rfl⟩

/-- A variant that is written as a word. -/
theorem gives_variant_word (room : Bool) {a : α} {d : Decoder α} {key : String}
    (hfind : known.find? (·.1 == key) = some (key, some a, d)) {w t : List Char} (hw : Blanks w)
    (ht : StringText key t) : Gives (variant room known) (w ++ t) (.ok a) behind := by
  obtain ⟨literal, hkey, rfl⟩ := ht
  refine Gives.token hw (by decide) (Gives.eat ?_)
  have hword : Gives stringRest (literal ++ ['"']) (.ok key) Anything := hkey.gives_stringRest
  rw [← List.append_nil (_ ++ ['"'])]
  refine hword.bind ?_ fun rest hrest => trivial
  simp only [hfind]
  exact gives_pure a

end Json

end SelectorExplain
