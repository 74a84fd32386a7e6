import SelectorExplain.Proofs.Json.Spelling

set_option autoImplicit false

/-! # The grammar of JSON

What it is for a text to be JSON, whoever reads it. `Valid` says that of a text without blanks
around it: a word, a number, a string, a list or an object. The texts of items and of members are
kept in lists, so that a statement about a list or an object is one about each of them, and the
blanks between tokens are left to `ItemsText` and `MembersText`. -/

namespace SelectorExplain

namespace Json

/-! ## Numbers -/

/-- One digit or more. -/
def Digits (t : List Char) : Prop := t ≠ [] ∧ ∀ c ∈ t, c.isDigit = true

/-- The digits in front of a point, without a zero in front of others. -/
def WholeText (t : List Char) : Prop := t = ['0'] ∨ Digits t ∧ t.head? ≠ some '0'

/-- A point with digits behind it, or nothing. -/
def FractionText (t : List Char) : Prop := t = [] ∨ ∃ ds, Digits ds ∧ t = '.' :: ds

/-- An exponent, or nothing. -/
def ExponentText (t : List Char) : Prop :=
  t = [] ∨ ∃ e ∈ ['e', 'E'], ∃ sign ∈ [[], ['+'], ['-']], ∃ ds, Digits ds ∧ t = e :: (sign ++ ds)

/-- The text of a number. -/
inductive NumberText : List Char → Prop
  | mk {sign whole fraction exponent : List Char} (hsign : sign ∈ [[], ['-']])
      (hwhole : WholeText whole) (hfraction : FractionText fraction)
      (hexponent : ExponentText exponent) : NumberText (sign ++ (whole ++ (fraction ++ exponent)))

/-! ## Lists and objects -/

/-- The text has the items up to the end of a list, with a comma in front of each but the first one
    of the list. -/
inductive ItemsText : (first : Bool) → List (List Char) → List Char → Prop
  | close {first : Bool} {w : List Char} (hw : Blanks w) : ItemsText first [] w
  | item {first : Bool} {w w' v more : List Char} {rest : List (List Char)} (hw : Blanks w)
      (hw' : Blanks w') (hmore : ItemsText false rest more) :
      ItemsText first (v :: rest) (lead first w w' ++ (v ++ more))

/-- The same as `ItemsText` for the members of an object, each of them the literal of its key and
    the text of its value. -/
inductive MembersText : (first : Bool) → List (List Char × List Char) → List Char → Prop
  | close {first : Bool} {w : List Char} (hw : Blanks w) : MembersText first [] w
  | member {first : Bool} {w w' w₁ w₂ literal v more : List Char}
      {rest : List (List Char × List Char)} (hw : Blanks w) (hw' : Blanks w') (hw₁ : Blanks w₁)
      (hw₂ : Blanks w₂) (hmore : MembersText false rest more) :
      MembersText first ((literal, v) :: rest)
        (lead first w w' ++ (memberOf literal w₁ (w₂ ++ v) ++ more))

/-- The texts of the words. -/
def words : List (List Char) := [['n', 'u', 'l', 'l'], ['t', 'r', 'u', 'e'],
  ['f', 'a', 'l', 's', 'e']]

/-- The text is JSON. -/
inductive Valid : List Char → Prop
  | word {t : List Char} (h : t ∈ words) : Valid t
  | number {t : List Char} (h : NumberText t) : Valid t
  | string {literal : List Char} (h : Literal literal) : Valid ('"' :: (literal ++ ['"']))
  | list {items : List (List Char)} {t : List Char} (h : ∀ v ∈ items, Valid v)
      (ht : ItemsText true items t) : Valid ('[' :: (t ++ [']']))
  | object {members : List (List Char × List Char)} {t : List Char}
      (hkeys : ∀ m ∈ members, Literal m.1) (h : ∀ m ∈ members, Valid m.2)
      (ht : MembersText true members t) : Valid ('\x7b' :: (t ++ ['\x7d']))

theorem WholeText.exists_digit {t : List Char} (h : WholeText t) :
    ∃ c more, t = c :: more ∧ c.isDigit = true := by
  rcases h with rfl | ⟨⟨hne, hdigits⟩, -⟩
  · exact ⟨'0', [], rfl, rfl⟩
  · obtain ⟨c, more, rfl⟩ := List.exists_cons_of_ne_nil hne
    exact ⟨c, more, rfl, hdigits c (by simp)⟩

theorem NumberText.startsItem {t : List Char} (h : NumberText t) : StartsItem t := by
  obtain ⟨hsign, hwhole, -, -⟩ := h
  simp only [List.mem_cons, List.not_mem_nil, or_false] at hsign
  rcases hsign with rfl | rfl
  · obtain ⟨c, more, rfl, hc⟩ := hwhole.exists_digit
    exact startsItem_digit hc _
  · exact ⟨'-', _, rfl, by decide, by decide⟩

theorem Valid.startsItem {t : List Char} (h : Valid t) : StartsItem t := by
  cases h with
  | word hword =>
      simp only [words, List.mem_cons, List.not_mem_nil, or_false] at hword
      rcases hword with rfl | rfl | rfl <;> exact ⟨_, _, rfl, by decide, by decide⟩
  | number hnumber => exact hnumber.startsItem
  | string _ => exact ⟨'"', _, rfl, by decide, by decide⟩
  | list _ _ => exact ⟨'[', _, rfl, by decide, by decide⟩
  | object _ _ _ => exact ⟨'\x7b', _, rfl, by decide, by decide⟩

/-- An item ends where the text goes on with further items, or ends. -/
theorem ItemsText.delimited {items : List (List Char)} {t : List Char} (h : ItemsText false items t)
    (rest : List Char) : Delimited (t ++ ']' :: rest) := by
  cases h with
  | close hw => exact delimited_blanks hw (by decide) rest
  | item hw hw' hmore =>
      rw [List.append_assoc]
      exact delimited_lead hw _ _

/-- A member ends where the text goes on with further members, or ends. -/
theorem MembersText.delimited {members : List (List Char × List Char)} {t : List Char}
    (h : MembersText false members t) (rest : List Char) : Delimited (t ++ '\x7d' :: rest) := by
  cases h with
  | close hw => exact delimited_blanks hw (by decide) rest
  | member hw hw' hw₁ hw₂ hmore =>
      rw [List.append_assoc]
      exact delimited_lead hw _ _

end Json

end SelectorExplain
