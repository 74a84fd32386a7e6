import SelectorExplain.Proofs.Json.Forms
import SelectorExplain.Proofs.Json.Yields

set_option autoImplicit false

/-! # What has been read of a text

From the value that a reader answers back to the text. Whatever a reader makes of a text of JSON, it
makes of all of it and of nothing behind it (`Consumes`), and what it has made of the whole says
what it has made of the parts: of each item of a list, of what a variant carries. Records are dealt
with in `Proofs/Json/Fills.lean`. -/

namespace SelectorExplain

namespace Json

variable {α β σ : Type}

/-! ## Steps -/

theorem run_bind_inv {d : Decoder α} {f : α → Decoder β} {c here : Cursor} {b : β}
    (h : (d >>= f) c = .ok (b, here)) :
    ∃ a between, d c = .ok (a, between) ∧ f a between = .ok (b, here) := by
  cases hd : d c with
  | error fault =>
      rw [run_bind_error hd] at h
      cases h
  | ok r =>
      obtain ⟨a, between⟩ := r
      rw [run_bind_ok hd] at h
      exact ⟨a, between, rfl, h⟩

theorem run_map_inv {d : Decoder α} {f : α → β} {c here : Cursor} {b : β}
    (h : (f <$> d) c = .ok (b, here)) : ∃ a, d c = .ok (a, here) ∧ f a = b := by
  rw [← bind_pure_comp] at h
  obtain ⟨a, between, hd, hpure⟩ := run_bind_inv h
  cases hpure
  exact ⟨a, hd, rfl⟩

section

variable {d : Decoder α} {t rest : List Char} {a : α} {behind : List Char → Prop} {p : Position}

/-- At a token a reader goes on by its first character, with a reader of its own for it. -/
theorem run_token_inv {f : Option Char → Decoder α} {w : List Char} (hw : Blanks w) {c : Char}
    (hc : isBlank c = false) {t : List Char} {p : Position} {r : α × Cursor}
    (h : (Decoder.token >>= f) ⟨w ++ c :: t, p⟩ = .ok r) :
    ∃ d q, f (some c) = d ∧ d ⟨c :: t, q⟩ = .ok r := by
  obtain ⟨q, hq⟩ := run_token_bind (f := f) hw hc t p
  rw [hq] at h
  exact ⟨_, q, rfl, h⟩

theorem run_eat_inv {g : Unit → Decoder α} {c : Char} {t : List Char} {p : Position}
    {r : α × Cursor} (h : (Decoder.eat >>= g) ⟨c :: t, p⟩ = .ok r) : ∃ q, g () ⟨t, q⟩ = .ok r :=
  ⟨p.after c, h⟩

/-- A reader answers what it is known to give. -/
theorem Gives.run_inv (hd : Gives d t (.ok a) behind) (hrest : behind rest) {b : α} {here : Cursor}
    (h : d ⟨t ++ rest, p⟩ = .ok (b, here)) : b = a ∧ here.rest = rest := by
  obtain ⟨q, hq⟩ := fits_ok_iff.1 (hd.fits rest p hrest)
  rw [hq] at h
  cases h
  exact ⟨rfl, rfl⟩

theorem Gives.run_bind_inv {f : α → Decoder β} (hd : Gives d t (.ok a) behind)
    (hrest : behind rest) {r : β × Cursor} (h : (d >>= f) ⟨t ++ rest, p⟩ = .ok r) :
    ∃ q, f a ⟨rest, q⟩ = .ok r := by
  obtain ⟨q, hq⟩ := fits_ok_iff.1 (hd.fits rest p hrest)
  rw [run_bind_ok hq] at h
  exact ⟨q, h⟩

end

/-! ## Strings -/

theorem prepend_eq_ok {c : Char} {r : Except Fault (List Char × Cursor)} {s : List Char}
    {here : Cursor} (h : prepend c r = .ok (s, here)) : ∃ s', r = .ok (s', here) ∧ s = c :: s' := by
  cases r with
  | error fault => cases h
  | ok r =>
      obtain ⟨s', between⟩ := r
      cases h
      exact ⟨s', rfl, rfl⟩

/-- What is read of a literal is what it stands for. -/
theorem Literal.denotes_of_stringBody {t : List Char} (h : Literal t) {rest s : List Char}
    {p : Position} {here : Cursor} (hrun : stringBody (t ++ '"' :: rest) p = .ok (s, here)) :
    Denotes t s ∧ here.rest = rest := by
  -- on the length: a pair of escapes is passed over at once
  induction hlength : t.length using Nat.strongRecOn generalizing t s p with
  | ind n ih =>
      subst hlength
      rcases h with - | @⟨c, t, hquote, hescape, hc, ht⟩ | @⟨e, c, t, he, ht⟩ |
        @⟨a, b, c, d, u, t, hu, ht⟩
      · rw [List.nil_append, stringBody] at hrun
        cases hrun
        exact ⟨.nil, rfl⟩
      · rw [List.cons_append, stringBody, if_neg (by omega)] at hrun
        · obtain ⟨s, hrest, rfl⟩ := prepend_eq_ok hrun
          obtain ⟨hs, hhere⟩ := ih _ (by simp only [List.length_cons]; omega) ht hrest rfl
          exact ⟨.plain hquote hescape hc hs, hhere⟩
        all_goals simp_all
      · have hne := ne_of_escaped? he
        simp only [List.cons_append] at hrun
        rw [stringBody, he] at hrun
        · obtain ⟨s, hrest, rfl⟩ := prepend_eq_ok hrun
          obtain ⟨hs, hhere⟩ := ih _ (by simp only [List.length_cons]; omega) ht hrest rfl
          exact ⟨.letter he hs, hhere⟩
        all_goals simp_all
      · simp only [List.cons_append] at hrun
        rw [stringBody, hu] at hrun
        dsimp only at hrun
        split at hrun
        · cases hrun
        · next htrailing =>
            split at hrun
            · next hleading =>
                -- the second half of the pair has to be the next escape
                rcases ht with - | @⟨e, t, hquote, hescape, hc, ht⟩ | @⟨e, x, t, he, ht⟩ |
                  @⟨e, f, g, h, v, t, hv, ht⟩
                · cases hrun
                · split at hrun
                  · next heq => exact absurd (List.cons.inj heq).1 hescape
                  · cases hrun
                · split at hrun
                  · next heq =>
                      exact absurd (List.cons.inj (List.cons.inj heq).2).1 (ne_of_escaped? he)
                  · cases hrun
                · simp only [List.cons_append, hv] at hrun
                  split at hrun
                  · next hpair =>
                      obtain ⟨s, hrest, rfl⟩ := prepend_eq_ok hrun
                      obtain ⟨hs, hhere⟩ :=
                        ih _ (by simp only [List.length_cons]; omega) ht hrest rfl
                      exact ⟨.pair hu hv hleading hpair hs, hhere⟩
                  · cases hrun
            · next hleading =>
                obtain ⟨s, hrest, rfl⟩ := prepend_eq_ok hrun
                obtain ⟨hs, hhere⟩ := ih _ (by simp only [List.length_cons]; omega) ht hrest rfl
                exact ⟨.unit hu (by simpa using hleading) (by simpa using htrailing) hs, hhere⟩

theorem Literal.denotes_of_stringRest {t : List Char} (h : Literal t) {rest : List Char}
    {p : Position} {key : String} {here : Cursor}
    (hrun : stringRest ⟨t ++ '"' :: rest, p⟩ = .ok (key, here)) :
    Denotes t key.toList ∧ here.rest = rest := by
  unfold stringRest at hrun
  split at hrun
  · next s between hbody =>
      cases hrun
      rw [String.toList_ofList]
      exact h.denotes_of_stringBody hbody
  · cases hrun

/-! ## Kinds of texts -/

/-- What is written between brackets: the members of an object, each of them the literal of its key
    and the text of its value, or the items of a list. -/
inductive Written where
  | object (members : List (List Char × List Char))
  | list (items : List (List Char))

/-- The text is JSON, and consists of brackets with this between them. -/
inductive Brackets : Written → List Char → Prop
  | object {members : List (List Char × List Char)} {t : List Char}
      (hkeys : ∀ m ∈ members, Literal m.1) (hvalues : ∀ m ∈ members, Valid m.2)
      (ht : MembersText true members t) : Brackets (.object members) ('\x7b' :: (t ++ ['\x7d']))
  | list {items : List (List Char)} {t : List Char} (hitems : ∀ v ∈ items, Valid v)
      (ht : ItemsText true items t) : Brackets (.list items) ('[' :: (t ++ [']']))

theorem Brackets.ne_nullText {written : Written} {t : List Char} (h : Brackets written t) :
    t ≠ nullText := by
  rcases h with - | - <;> simp [nullText]

theorem Brackets.valid {written : Written} {t : List Char} (h : Brackets written t) : Valid t := by
  rcases h with ⟨hkeys, hvalues, ht⟩ | ⟨hitems, ht⟩
  · exact .object hkeys hvalues ht
  · exact .list hitems ht

theorem valid_compact_str (s : String) : Valid (JsonValue.str s).compact.toList := by
  rw [toList_compact_str]
  exact .string (denotes_escaped _).literal

theorem brackets_compact_arr {items : List JsonValue} (h : ∀ v ∈ items, Valid v.compact.toList) :
    Brackets (.list (items.map fun v => v.compact.toList))
      (JsonValue.arr items).compact.toList := by
  rw [toList_compact_arr]
  exact .list (List.forall_mem_map.2 h) (itemsText_printed items true)

theorem brackets_compact_obj {members : List (String × JsonValue)}
    (h : ∀ m ∈ members, Valid m.2.compact.toList) :
    Brackets (.object (members.map printed)) (JsonValue.obj members).compact.toList := by
  rw [toList_compact_obj]
  exact .object (List.forall_mem_map.2 fun m _ => (denotes_escaped _).literal)
    (List.forall_mem_map.2 h) (membersText_printed members true)

/-- No number begins with a letter, a quote or a bracket. -/
theorem NumberText.digit_or_sign {c : Char} {t : List Char} (h : NumberText (c :: t)) :
    c.isDigit = true ∨ c = '-' := by
  generalize htext : c :: t = text at h
  obtain ⟨hsign, hwhole, -, -⟩ := h
  simp only [List.mem_cons, List.not_mem_nil, or_false] at hsign
  rcases hsign with rfl | rfl
  · obtain ⟨d, more, rfl, hd⟩ := hwhole.exists_digit
    obtain ⟨rfl, -⟩ := List.cons.inj htext
    exact .inl hd
  · exact .inr (List.cons.inj htext).1

section

variable {t : List Char}

theorem Valid.of_letter (h : Valid ('n' :: t)) : 'n' :: t = nullText := by
  cases h with
  | word hword => simpa [words, nullText] using hword
  | number hnumber => exact absurd hnumber.digit_or_sign (by decide)

theorem Valid.of_quote (h : Valid ('"' :: t)) :
    ∃ literal, Literal literal ∧ t = literal ++ ['"'] := by
  cases h with
  | word hword => simp [words] at hword
  | number hnumber => exact absurd hnumber.digit_or_sign (by decide)
  | string hliteral => exact ⟨_, hliteral, rfl⟩

theorem Valid.of_bracket (h : Valid ('[' :: t)) :
    ∃ items, Brackets (.list items) ('[' :: t) := by
  cases h with
  | word hword => simp [words] at hword
  | number hnumber => exact absurd hnumber.digit_or_sign (by decide)
  | list hitems ht => exact ⟨_, .list hitems ht⟩

theorem Valid.of_brace (h : Valid ('\x7b' :: t)) :
    ∃ members, Brackets (.object members) ('\x7b' :: t) := by
  cases h with
  | word hword => simp [words] at hword
  | number hnumber => exact absurd hnumber.digit_or_sign (by decide)
  | object hkeys hvalues ht => exact ⟨_, .object hkeys hvalues ht⟩

end

/-! ## Readers that stop behind a text -/

/-- What the reader makes of a text of JSON, if anything, it makes of all of it. -/
structure Consumes (d : Decoder α) : Prop where
  rest_eq : ∀ {t w rest p a here}, Valid t → Blanks w → Delimited rest →
    d ⟨w ++ (t ++ rest), p⟩ = .ok (a, here) → here.rest = rest

/-- Somewhere the reader makes this value of the text. -/
def Makes (d : Decoder α) (t : List Char) (a : α) : Prop :=
  ∃ w rest p here, Blanks w ∧ Delimited rest ∧ d ⟨w ++ (t ++ rest), p⟩ = .ok (a, here)

/-- What a reader makes of a text in a place, without blanks in front of it. -/
theorem Consumes.makes {d : Decoder α} (hd : Consumes d) {t rest : List Char} {p : Position} {a : α}
    {here : Cursor} (ht : Valid t) (hrest : Delimited rest)
    (h : d ⟨t ++ rest, p⟩ = .ok (a, here)) : here.rest = rest ∧ Makes d t a :=
  ⟨hd.rest_eq (w := []) ht blanks_nil hrest h, [], rest, p, here, blanks_nil, hrest, h⟩

/-- A reader answers what it is known to give. -/
theorem Makes.eq {d : Decoder α} {t : List Char} {a b : α} (h : Makes d t b)
    (hd : ∀ w, Blanks w → Gives d (w ++ t) (.ok a) Delimited) : b = a := by
  obtain ⟨w, rest, p, here, hw, hrest, hrun⟩ := h
  rw [← List.append_assoc] at hrun
  exact ((hd w hw).run_inv hrest hrun).1

section

variable {d : Decoder α} {t : List Char}

theorem Makes.map_inv {f : α → β} {b : β} (h : Makes (f <$> d) t b) :
    ∃ a, Makes d t a ∧ f a = b := by
  obtain ⟨w, rest, p, here, hw, hrest, hrun⟩ := h
  obtain ⟨a, ha, hf⟩ := run_map_inv hrun
  exact ⟨a, ⟨w, rest, p, here, hw, hrest, ha⟩, hf⟩

theorem Consumes.map (h : Consumes d) (f : α → β) : Consumes (f <$> d) where
  rest_eq ht hw hrest hrun := by
    obtain ⟨a, ha, -⟩ := run_map_inv hrun
    exact h.rest_eq ht hw hrest ha

theorem run_checked_inv {check : α → Except TreeError β} {c here : Cursor} {b : β}
    (h : checked check d c = .ok (b, here)) : ∃ a, d c = .ok (a, here) ∧ check a = .ok b := by
  obtain ⟨a, between, hd, hcheck⟩ := run_bind_inv h
  cases hpass : check a with
  | error e =>
      rw [hpass] at hcheck
      cases hcheck
  | ok b' =>
      rw [hpass] at hcheck
      cases hcheck
      exact ⟨a, hd, hpass⟩

theorem Makes.checked_inv {check : α → Except TreeError β} {b : β}
    (h : Makes (checked check d) t b) : ∃ a, Makes d t a ∧ check a = .ok b := by
  obtain ⟨w, rest, p, here, hw, hrest, hrun⟩ := h
  obtain ⟨a, ha, hcheck⟩ := run_checked_inv hrun
  exact ⟨a, ⟨w, rest, p, here, hw, hrest, ha⟩, hcheck⟩

theorem Consumes.checked (h : Consumes d) (check : α → Except TreeError β) :
    Consumes (checked check d) where
  rest_eq ht hw hrest hrun := by
    obtain ⟨a, ha, -⟩ := run_checked_inv hrun
    exact h.rest_eq ht hw hrest ha

end

/-! ## Scalars and options -/

theorem reject_ne_ok (expected : String) {c here : Cursor} {a : α} :
    reject expected c ≠ .ok (a, here) :=
  fun h => (yields_reject expected (P := fun _ => False)).holds h

theorem consumes_string : Consumes string where
  rest_eq {t w rest p a here} ht hw hrest hrun := by
    obtain ⟨c, more, rfl, hc, -⟩ := ht.startsItem
    obtain ⟨d, q, hd, hrun⟩ := run_token_inv hw hc hrun
    split at hd
    · next heq => cases heq
    · next heq =>
        cases heq
        subst hd
        obtain ⟨literal, hliteral, rfl⟩ := ht.of_quote
        change stringRest ⟨(literal ++ ['"']) ++ rest, _⟩ = _ at hrun
        rw [List.append_assoc] at hrun
        exact (hliteral.denotes_of_stringRest hrun).2
    · subst hd
      exact absurd hrun (reject_ne_ok _)

theorem consumes_unit : Consumes unit where
  rest_eq {t w rest p a here} ht hw hrest hrun := by
    obtain ⟨c, more, rfl, hc, -⟩ := ht.startsItem
    by_cases hnull : c = 'n'
    · subst hnull
      have hgives : Gives unit (w ++ nullText) (.ok ()) Delimited := gives_unit hw
      rw [ht.of_letter, ← List.append_assoc] at hrun
      exact (hgives.run_inv hrest hrun).2
    · obtain ⟨d, q, hd, hrun⟩ := run_token_inv hw hc hrun
      split at hd
      · next heq => cases heq
      · next heq => exact absurd (Option.some.inj heq) hnull
      · subst hd
        exact absurd hrun (reject_ne_ok _)

section

variable {value : Decoder α} {t w rest : List Char} {o : Option α}

/-- An optional value is absent exactly where `null` is written. -/
theorem Consumes.run_option_inv (h : Consumes value) (ht : Valid t) (hw : Blanks w)
    (hrest : Delimited rest) {p : Position} {here : Cursor}
    (hrun : option value ⟨w ++ (t ++ rest), p⟩ = .ok (o, here)) :
    here.rest = rest ∧ (t = nullText ∧ o = none ∨
      t ≠ nullText ∧ ∃ a, o = some a ∧ Makes value t a) := by
  obtain ⟨c, more, rfl, hc, -⟩ := ht.startsItem
  by_cases hnull : c = 'n'
  · subst hnull
    have hgives : Gives (option value) (w ++ nullText) (.ok none) Delimited := gives_option_null hw
    rw [ht.of_letter, ← List.append_assoc] at hrun
    obtain ⟨rfl, hhere⟩ := hgives.run_inv hrest hrun
    exact ⟨hhere, .inl ⟨ht.of_letter, rfl⟩⟩
  · obtain ⟨d, q, hd, hrun⟩ := run_token_inv hw hc hrun
    split at hd
    · next heq => exact absurd (Option.some.inj heq) hnull
    · subst hd
      obtain ⟨a, between, hvalue, hpure⟩ := run_bind_inv hrun
      obtain ⟨hhere, hmakes⟩ := h.makes ht hrest hvalue
      cases hpure
      exact ⟨hhere, .inr ⟨fun heq => hnull (List.cons.inj heq).1, a, rfl, hmakes⟩⟩

theorem Consumes.option (h : Consumes value) : Consumes (option value) where
  rest_eq ht hw hrest hrun := (h.run_option_inv ht hw hrest hrun).1

theorem Consumes.option_inv (h : Consumes value) (ht : Valid t)
    (ho : Makes (Json.option value) t o) :
    t = nullText ∧ o = none ∨ t ≠ nullText ∧ ∃ a, o = some a ∧ Makes value t a := by
  obtain ⟨w, rest, p, here, hw, hrest, hrun⟩ := ho
  exact (h.run_option_inv ht hw hrest hrun).2

end

/-! ## Brackets -/

theorem run_closedBy_inv {ending : Decoder Unit} {past : Cursor → Cursor} {inside : Decoder α}
    {c here : Cursor} {a : α} (h : closedBy ending past inside c = .ok (a, here)) :
    ∃ between, inside c = .ok (a, between) ∧ ending between = .ok ((), here) := by
  unfold closedBy at h
  split at h
  · cases h
  · cases h
  · next b between hinside =>
      split at h
      · cases h
      · next here' hending =>
          cases h
          exact ⟨between, hinside, hending⟩

theorem run_inList_inv {room : Bool} {inside : Decoder α} {t : List Char} {p : Position} {a : α}
    {here : Cursor} (h : inList room inside ⟨'[' :: t, p⟩ = .ok (a, here)) :
    room = true ∧
      ∃ q between, inside ⟨t, q⟩ = .ok (a, between) ∧ endList between = .ok ((), here) := by
  cases room with
  | false => cases h
  | true =>
      obtain ⟨between, hinside, hending⟩ := run_closedBy_inv h
      exact ⟨rfl, _, between, hinside, hending⟩

theorem run_inObject_inv {room : Bool} {inside : Decoder α} {t : List Char} {p : Position} {a : α}
    {here : Cursor} (h : inObject room inside ⟨'\x7b' :: t, p⟩ = .ok (a, here)) :
    room = true ∧
      ∃ q between, inside ⟨t, q⟩ = .ok (a, between) ∧ endObject between = .ok ((), here) := by
  cases room with
  | false => cases h
  | true =>
      obtain ⟨between, hinside, hending⟩ := run_closedBy_inv h
      exact ⟨rfl, _, between, hinside, hending⟩

/-! ## Lists -/

/-- Each item of a list is made of its text. -/
theorem run_items_inv {item : Decoder α} (hitem : Consumes item) {items : List (List Char)}
    {first : Bool} {t : List Char} (ht : ItemsText first items t) (hvalid : ∀ v ∈ items, Valid v)
    {budget rest : List Char} {p : Position} {as : List α} {here : Cursor}
    (h : Json.items item budget first ⟨t ++ ']' :: rest, p⟩ = .ok (as, here)) :
    here.rest = ']' :: rest ∧ List.Forall₂ (Makes item) items as := by
  induction ht generalizing budget p as here with
  | @close first w hw =>
      cases budget with
      | nil => cases h
      | cons b budget =>
          obtain ⟨q, hrun⟩ := (gives_moreItems_end hw first).run_bind_inv ⟨rest, rfl⟩ h
          cases hrun
          exact ⟨rfl, .nil⟩
  | @item first w w' v more items hw hw' hmore ih =>
      cases budget with
      | nil => cases h
      | cons b budget =>
          have hv := hvalid v (by simp)
          rw [List.append_assoc, List.append_assoc] at h
          obtain ⟨q, hrun⟩ := (gives_moreItems hw hw' first).run_bind_inv
            (hv.startsItem.append _) h
          obtain ⟨a, ⟨_, q'⟩, ha, hrun⟩ := run_bind_inv hrun
          obtain ⟨rfl, hmakes⟩ := hitem.makes hv (hmore.delimited rest) ha
          obtain ⟨as, last, has, hpure⟩ := run_bind_inv hrun
          cases hpure
          obtain ⟨hhere, hrest⟩ := ih (fun x hx => hvalid x (by simp [hx])) has
          exact ⟨hhere, .cons hmakes hrest⟩

section

variable {item : Decoder α} {room : Bool} {t w rest : List Char} {as : List α}

/-- Behind a comma in place of the end of a list there is only the choice between two problems. -/
theorem yields_endList_comma : Yields (do
    Decoder.eat
    match ← Decoder.token with
    | some ']' => Decoder.failNext .trailingComma
    | _ => Decoder.failNext .trailingCharacters : Decoder Unit) fun _ => False := by
  refine yields_bind fun _ => yields_bind fun c => ?_
  split <;> exact yields_failNext _

/-- The end of a list is only read where no item is left. -/
theorem run_endList_inv {items : List (List Char)} {first : Bool} (ht : ItemsText first items t)
    (hvalid : ∀ v ∈ items, Valid v) {q : Position} {here : Cursor}
    (h : endList ⟨t ++ ']' :: rest, q⟩ = .ok ((), here)) : items = [] ∧ here.rest = rest := by
  rcases ht with hw | @⟨first, w, w', v, more, items, hw, hw', -⟩
  · obtain ⟨d, q, rfl, hrun⟩ := run_token_inv hw (c := ']') rfl h
    cases hrun
    exact ⟨rfl, rfl⟩
  · cases first with
    | true =>
        obtain ⟨c, tail, rfl, hc, hne⟩ := (hvalid _ List.mem_cons_self).startsItem
        rw [lead, if_pos rfl, List.append_assoc, List.append_assoc, List.cons_append] at h
        obtain ⟨d, q, hd, hrun⟩ := run_token_inv hw hc h
        split at hd
        · next heq => cases heq
        · next heq => exact absurd (Option.some.inj heq) hne
        · subst hd
          exact (yields_endList_comma.holds hrun).elim
        · subst hd
          cases hrun
    | false =>
        rw [lead, if_neg Bool.false_ne_true, List.append_assoc, List.append_assoc,
          List.cons_append] at h
        obtain ⟨d, q, rfl, hrun⟩ := run_token_inv hw (c := ',') rfl h
        exact (yields_endList_comma.holds hrun).elim

theorem Consumes.run_list_inv (hitem : Consumes item) {items : List (List Char)}
    (hb : Brackets (.list items) t) (hw : Blanks w) {p : Position} {here : Cursor}
    (h : Json.list room item ⟨w ++ (t ++ rest), p⟩ = .ok (as, here)) :
    here.rest = rest ∧ List.Forall₂ (Makes item) items as := by
  rcases hb with - | ⟨hitems, ht⟩
  rw [List.cons_append, List.append_assoc] at h
  obtain ⟨d, q, rfl, hrun⟩ := run_token_inv hw (c := '[') rfl h
  obtain ⟨-, q', ⟨_, q''⟩, hinside, hending⟩ := run_inList_inv hrun
  obtain ⟨rfl, hmakes⟩ := run_items_inv hitem ht hitems hinside
  cases hending
  exact ⟨rfl, hmakes⟩

theorem Consumes.list (hitem : Consumes item) (room : Bool) : Consumes (list room item) where
  rest_eq {t w rest p as here} ht hw hrest hrun := by
    obtain ⟨c, more, rfl, hc, -⟩ := ht.startsItem
    by_cases hbracket : c = '['
    · subst hbracket
      obtain ⟨items, hb⟩ := ht.of_bracket
      exact (hitem.run_list_inv hb hw hrun).1
    · obtain ⟨d, q, hd, hrun⟩ := run_token_inv hw hc hrun
      split at hd
      · next heq => cases heq
      · next heq => exact absurd (Option.some.inj heq) hbracket
      · subst hd
        exact absurd hrun (reject_ne_ok _)

/-- Each item of a list is made of its text. -/
theorem Consumes.list_inv (hitem : Consumes item) {items : List (List Char)}
    (hb : Brackets (.list items) t) (h : Makes (Json.list room item) t as) :
    List.Forall₂ (Makes item) items as := by
  obtain ⟨w, rest, p, here, hw, -, hrun⟩ := h
  exact (hitem.run_list_inv hb hw hrun).2

theorem Consumes.item_inv (hitem : Consumes item) {items : List (List Char)}
    (hb : Brackets (.list items) t) (h : Makes (Json.list room item) t as) {v : List Char}
    (hv : v ∈ items) : ∃ a, Makes item v a := by
  have hitems := hitem.list_inv hb h
  clear h hb
  induction hitems with
  | nil => cases hv
  | cons ha hmore ih =>
      rcases List.mem_cons.1 hv with rfl | hv
      · exact ⟨_, ha⟩
      · exact ih hv

end

/-! ## Variants -/

section

variable {known : List (String × Option α × Decoder α)} {room : Bool} {t w rest : List Char} {a : α}

theorem run_variantKey_inv {literal : List Char} (hliteral : Literal literal) (hw : Blanks w)
    {p : Position} {key : String} {here : Cursor}
    (h : variantKey room ⟨'\x7b' :: (w ++ '"' :: (literal ++ '"' :: rest)), p⟩ = .ok (key, here)) :
    Denotes literal key.toList ∧ here.rest = rest := by
  cases room with
  | false => cases h
  | true =>
      obtain ⟨p', hrun⟩ := run_eat_inv h
      obtain ⟨d, q, rfl, hrun⟩ := run_token_inv hw (c := '"') rfl hrun
      obtain ⟨p', hrun⟩ := run_eat_inv hrun
      exact hliteral.denotes_of_stringRest hrun

theorem run_variantKey_empty {p : Position} {key : String} {here : Cursor} (hw : Blanks w) :
    variantKey room ⟨'\x7b' :: (w ++ '\x7d' :: rest), p⟩ ≠ .ok (key, here) := by
  intro h
  cases room with
  | false => cases h
  | true =>
      obtain ⟨p', hrun⟩ := run_eat_inv h
      obtain ⟨d, q, rfl, hrun⟩ := run_token_inv hw (c := '\x7d') rfl hrun
      cases hrun

/-- Behind what a variant carries its closing bracket is the next token. -/
theorem run_variantBody_inv {body : Decoder α} (hbody : Consumes body) {v w₁ w₂ more : List Char}
    {members : List (List Char × List Char)} (hv : Valid v) (hw₁ : Blanks w₁) (hw₂ : Blanks w₂)
    (hmore : MembersText false members more) {p : Position} {here : Cursor}
    (h : variantBody body ⟨w₁ ++ ':' :: (w₂ ++ (v ++ (more ++ '\x7d' :: rest))), p⟩ =
      .ok (a, here)) :
    here.rest = rest ∧ members = [] ∧ Makes body v a := by
  rw [List.append_cons] at h
  have hcolon : Gives colon (w₁ ++ [':']) (.ok ()) Anything := gives_colon hw₁
  obtain ⟨q, hrun⟩ := hcolon.run_bind_inv trivial h
  obtain ⟨b, ⟨_, q'⟩, hb, hrun⟩ := run_bind_inv hrun
  have hdelimited := hmore.delimited rest
  obtain rfl := hbody.rest_eq hv hw₂ hdelimited hb
  rcases hmore with hw | hw
  · obtain ⟨d, q, rfl, hrun⟩ := run_token_inv hw (c := '\x7d') rfl hrun
    cases hrun
    exact ⟨rfl, rfl, w₂, _, _, _, hw₂, hdelimited, hb⟩
  · rw [lead, if_neg Bool.false_ne_true, List.append_assoc, List.append_assoc,
      List.cons_append] at hrun
    obtain ⟨d, q, rfl, hrun⟩ := run_token_inv hw (c := ',') rfl hrun
    cases hrun

/-- A variant that is written as an object has one member, which was read for its word. -/
theorem run_variant_inv (hknown : ∀ entry ∈ known, Consumes entry.2.2)
    {members : List (List Char × List Char)} (hb : Brackets (.object members) t) (hw : Blanks w)
    {p : Position} {here : Cursor}
    (h : variant room known ⟨w ++ (t ++ rest), p⟩ = .ok (a, here)) :
    here.rest = rest ∧ ∃ m key entry, members = [m] ∧ Denotes m.1 (String.toList key) ∧
      known.find? (·.1 == key) = some entry ∧ Makes entry.2.2 m.2 a := by
  rcases hb with ⟨hkeys, hvalues, ht⟩ | -
  rw [List.cons_append, List.append_assoc] at h
  obtain ⟨d, q, rfl, hrun⟩ := run_token_inv hw (c := '\x7b') rfl h
  obtain ⟨key, ⟨_, q'⟩, hkey, hrun⟩ := run_bind_inv hrun
  rcases ht with hw₁ | ⟨hw₁, -, hw₂, hw₃, hmore⟩
  · exact absurd hkey (run_variantKey_empty hw₁)
  · have hliteral := hkeys _ List.mem_cons_self
    have hv := hvalues _ List.mem_cons_self
    simp only [lead, if_true, memberOf, List.append_assoc, List.cons_append] at hkey
    obtain ⟨hdenotes, rfl⟩ := run_variantKey_inv hliteral hw₁ hkey
    dsimp only at hrun
    cases hfind : known.find? (·.1 == key) with
    | none =>
        rw [hfind] at hrun
        cases hrun
    | some entry =>
        rw [hfind] at hrun
        have hentry := hknown entry (List.mem_of_find?_eq_some hfind)
        obtain ⟨hhere, rfl, hmakes⟩ := run_variantBody_inv hentry hv hw₂ hw₃ hmore hrun
        exact ⟨hhere, _, key, entry, rfl, hdenotes, hfind, hmakes⟩

theorem Consumes.variant (hknown : ∀ entry ∈ known, Consumes entry.2.2) :
    Consumes (variant room known) where
  rest_eq {t w rest p a here} ht hw hrest hrun := by
    obtain ⟨c, more, rfl, hc, -⟩ := ht.startsItem
    by_cases hbrace : c = '\x7b'
    · subst hbrace
      obtain ⟨members, hb⟩ := ht.of_brace
      exact (run_variant_inv hknown hb hw hrun).1
    · obtain ⟨d, q, hd, hrun⟩ := run_token_inv hw hc hrun
      split at hd
      · next heq => cases heq
      · next heq =>
          cases heq
          subst hd
          obtain ⟨literal, hliteral, rfl⟩ := ht.of_quote
          obtain ⟨q, hrun⟩ := run_eat_inv hrun
          obtain ⟨key, between, hkey, hrun⟩ := run_bind_inv hrun
          change stringRest ⟨(literal ++ ['"']) ++ rest, _⟩ = _ at hkey
          rw [List.append_assoc] at hkey
          have hbetween : between.rest = rest := (hliteral.denotes_of_stringRest hkey).2
          -- the word is looked up, and nothing more is read
          dsimp only at hrun
          cases hfind : known.find? (·.1 == key) with
          | none =>
              rw [hfind] at hrun
              cases hrun
          | some entry =>
              rw [hfind] at hrun
              obtain ⟨found, between', hfound, hrun⟩ := run_bind_inv hrun
              cases hfound
              cases hvalue : entry.2.1 with
              | none =>
                  rw [hvalue] at hrun
                  cases hrun
              | some b =>
                  rw [hvalue] at hrun
                  cases hrun
                  exact hbetween
      · next heq => exact absurd (Option.some.inj heq) hbrace
      · subst hd
        cases hrun

/-- What a variant carries is made of the text of its one member. -/
theorem Makes.variant_inv (hknown : ∀ entry ∈ known, Consumes entry.2.2)
    {members : List (List Char × List Char)} (hb : Brackets (.object members) t)
    (h : Makes (Json.variant room known) t a) :
    ∃ m key entry, members = [m] ∧ Denotes m.1 (String.toList key) ∧
      known.find? (·.1 == key) = some entry ∧ Makes entry.2.2 m.2 a := by
  obtain ⟨w, rest, p, here, hw, -, hrun⟩ := h
  exact (run_variant_inv hknown hb hw hrun).2

/-- A word is read as what it stands for, in either way of writing it. -/
theorem Makes.oneOf_eq {words : List (String × α)} {word : String}
    (hfind : words.find? (·.1 == word) = some (word, a)) (ht : WordText word t) {b : α}
    (h : Makes (Json.oneOf room words) t b) : b = a := by
  cases room with
  | true => exact h.eq fun w hw => (accepts_oneOf hfind).gives ht hw
  | false =>
      rcases ht with hword | ⟨-, -, -⟩
      · exact h.eq fun w hw => gives_variant_word false (find?_oneOf hfind) hw hword
      · obtain ⟨w, rest, p, here, hw, -, hrun⟩ := h
        -- there is no room for the brackets of a variant
        rw [List.cons_append] at hrun
        obtain ⟨d, q, rfl, hrun⟩ := run_token_inv hw (c := '\x7b') rfl hrun
        cases hrun

theorem consumes_oneOf (room : Bool) (words : List (String × α)) : Consumes (oneOf room words) := by
  refine Consumes.variant fun entry hentry => ?_
  obtain ⟨word, -, rfl⟩ := List.mem_map.1 hentry
  exact consumes_unit.map fun _ => word.2

end

/-! ## Whole texts -/

/-- What is read of a text is made of the value in it, whatever blanks stand around that. -/
theorem makes_of_decode {d : Nat → Decoder α} {text : String} {t w more : List Char} {a : α}
    (hw : Blanks w) (hmore : Blanks more) (htext : text.toList = w ++ (t ++ more))
    (h : decode d text = .ok a) : Makes (d maxDepth) t a := by
  unfold decode at h
  split at h
  · next b here hwhole =>
      cases h
      rw [Cursor.ofString, htext] at hwhole
      obtain ⟨a, between, hd, hend⟩ := run_bind_inv hwhole
      obtain ⟨o, after, -, hpure⟩ := run_bind_inv hend
      cases o with
      | none =>
          cases hpure
          exact ⟨w, more, _, between, hw, delimited_of_blanks hmore, hd⟩
      | some c => cases hpure
  · cases h

end Json

end SelectorExplain
