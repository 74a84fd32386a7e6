import SelectorExplain.Proofs.Json.Reading

set_option autoImplicit false

/-! # Strings and how they are written

What may stand between the quotes of a string is a `Literal`; which characters it stands for, if it
stands for any, is said by `Denotes`. A reader answers what a literal denotes
(`Denotes.stringBody`), so no literal denotes two strings. Each string has a canonical literal among
others, the one in which it is printed (`denotes_escaped`). -/

namespace SelectorExplain

namespace Json

open JsonValue (escapeChar hexDigit quote)

/-! ## Literals -/

/-- What may stand between the quotes of a string. -/
inductive Literal : List Char → Prop
  | nil : Literal []
  | plain {c : Char} {t : List Char} (hquote : c ≠ '"') (hescape : c ≠ '\\') (hc : 32 ≤ c.toNat)
      (ht : Literal t) : Literal (c :: t)
  | letter {e c : Char} {t : List Char} (he : escaped? e = some c) (ht : Literal t) :
      Literal ('\\' :: e :: t)
  | unit {a b c d : Char} {u : Nat} {t : List Char} (hu : unit? a b c d = some u)
      (ht : Literal t) : Literal ('\\' :: 'u' :: a :: b :: c :: d :: t)

/-- A literal stands for characters: an escape by number for one of them, unless it is a surrogate,
    and a pair of surrogates for one as well. -/
inductive Denotes : List Char → List Char → Prop
  | nil : Denotes [] []
  | plain {c : Char} {t s : List Char} (hquote : c ≠ '"') (hescape : c ≠ '\\') (hc : 32 ≤ c.toNat)
      (ht : Denotes t s) : Denotes (c :: t) (c :: s)
  | letter {e c : Char} {t s : List Char} (he : escaped? e = some c) (ht : Denotes t s) :
      Denotes ('\\' :: e :: t) (c :: s)
  | unit {a b c d : Char} {u : Nat} {t s : List Char} (hu : unit? a b c d = some u)
      (hleading : isLeadingSurrogate u = false) (htrailing : isTrailingSurrogate u = false)
      (ht : Denotes t s) : Denotes ('\\' :: 'u' :: a :: b :: c :: d :: t) (Char.ofNat u :: s)
  | pair {a b c d e f g h : Char} {u v : Nat} {t s : List Char} (hu : unit? a b c d = some u)
      (hv : unit? e f g h = some v) (hleading : isLeadingSurrogate u = true)
      (htrailing : isTrailingSurrogate v = true) (ht : Denotes t s) :
      Denotes ('\\' :: 'u' :: a :: b :: c :: d :: '\\' :: 'u' :: e :: f :: g :: h :: t)
        (pairChar u v :: s)

theorem Denotes.literal {t s : List Char} (h : Denotes t s) : Literal t := by
  induction h with
  | nil => exact .nil
  | plain hquote hescape hc _ ih => exact .plain hquote hescape hc ih
  | letter he _ ih => exact .letter he ih
  | unit hu _ _ _ ih => exact .unit hu ih
  | pair hu hv _ _ _ ih => exact .unit hu (.unit hv ih)

/-! ## Reading a literal -/

/-- The letter of an escape by number stands for no character. -/
theorem ne_of_escaped? {e c : Char} (h : escaped? e = some c) : e ≠ 'u' := by
  rintro rfl
  cases h

/-- No unit is both the first and the second half of a pair. -/
theorem not_trailing_of_leading {u : Nat} (h : isLeadingSurrogate u = true) :
    isTrailingSurrogate u = false := by
  simp only [isLeadingSurrogate, isTrailingSurrogate, Bool.and_eq_true, decide_eq_true_eq,
    Bool.and_eq_false_iff, decide_eq_false_iff_not] at h ⊢
  omega

/-- A reader of strings answers what a literal stands for. -/
theorem Denotes.stringBody {t s : List Char} (h : Denotes t s) (rest : List Char) (p : Position) :
    ∃ q, stringBody (t ++ '"' :: rest) p = .ok (s, ⟨rest, q⟩) := by
  induction h generalizing p with
  | nil => exact ⟨p.add 1, rfl⟩
  | @plain c t s hquote hescape hc _ ih =>
      obtain ⟨q, hq⟩ := ih (p.after c)
      refine ⟨q, ?_⟩
      rw [List.cons_append, Json.stringBody, if_neg (by omega), hq]
      · rfl
      all_goals simp_all
  | @letter e c t s he _ ih =>
      obtain ⟨q, hq⟩ := ih (p.add 2)
      refine ⟨q, ?_⟩
      have hu := ne_of_escaped? he
      simp only [List.cons_append]
      rw [Json.stringBody, he]
      · simp only [hq, prepend]
      all_goals simp_all
  | @unit a b c d u t s hu hleading htrailing _ ih =>
      obtain ⟨q, hq⟩ := ih (p.add 6)
      refine ⟨q, ?_⟩
      simp [Json.stringBody, hu, hleading, htrailing, hq, prepend]
  | @pair a b c d e f g h u v t s hu hv hleading htrailing _ ih =>
      obtain ⟨q, hq⟩ := ih (p.add 12)
      refine ⟨q, ?_⟩
      simp [Json.stringBody, hu, hv, hleading, not_trailing_of_leading hleading, htrailing, hq,
        prepend]

/-- No literal stands for two strings. -/
theorem Denotes.unique {t s s' : List Char} (h : Denotes t s) (h' : Denotes t s') : s = s' := by
  obtain ⟨q, hq⟩ := h.stringBody [] {}
  obtain ⟨q', hq'⟩ := h'.stringBody [] {}
  rw [hq] at hq'
  exact congrArg Prod.fst (Except.ok.inj hq')

section

variable {behind : List Char → Prop} {literal : List Char} {s : String}

theorem Denotes.gives_stringRest (h : Denotes literal s.toList) :
    Gives stringRest (literal ++ ['"']) (.ok s) behind := by
  refine ⟨fun rest p _ => ?_⟩
  obtain ⟨q, hq⟩ := h.stringBody rest p
  refine fits_ok_iff.2 ⟨q, ?_⟩
  rw [List.append_assoc, List.singleton_append, stringRest]
  dsimp only
  rw [hq]
  dsimp only
  rw [String.ofList_toList]

/-- A string as it may be written, with its quotes. -/
def StringText (s : String) (t : List Char) : Prop :=
  ∃ literal, Denotes literal s.toList ∧ t = '"' :: (literal ++ ['"'])

theorem StringText.gives_string {t w : List Char} (h : StringText s t) (hw : Blanks w) :
    Gives string (w ++ t) (.ok s) behind := by
  obtain ⟨literal, hliteral, rfl⟩ := h
  refine Gives.token hw (by decide) ?_
  show Gives (Decoder.eat >>= fun _ => stringRest) _ _ _
  exact Gives.eat hliteral.gives_stringRest

end

/-! ## The canonical literal -/

theorem unit?_hexDigit : ∀ n < 32,
    unit? '0' '0' (hexDigit (n / 16)) (hexDigit (n % 16)) = some n := by
  decide

/-- How a character is written: as itself, by a letter, or by its number. -/
theorem escapeChar_cases (c : Char) :
    (escapeChar c = [c] ∧ c ≠ '"' ∧ c ≠ '\\' ∧ ¬c.toNat < 32) ∨
      (∃ e, escapeChar c = ['\\', e] ∧ escaped? e = some c) ∨
      (c.toNat < 32 ∧ escapeChar c =
        ['\\', 'u', '0', '0', hexDigit (c.toNat / 16), hexDigit (c.toNat % 16)]) := by
  unfold escapeChar
  split
  · exact .inr (.inl ⟨'"', rfl, rfl⟩)
  · exact .inr (.inl ⟨'\\', rfl, rfl⟩)
  · exact .inr (.inl ⟨'b', rfl, rfl⟩)
  · exact .inr (.inl ⟨'t', rfl, rfl⟩)
  · exact .inr (.inl ⟨'n', rfl, rfl⟩)
  · exact .inr (.inl ⟨'f', rfl, rfl⟩)
  · exact .inr (.inl ⟨'r', rfl, rfl⟩)
  · next hquote hbackslash _ _ _ _ _ =>
      by_cases hc : c.toNat < 32
      · exact .inr (.inr ⟨hc, if_pos hc⟩)
      · exact .inl ⟨if_neg hc, hquote, hbackslash, hc⟩

/-- What is written for a string stands for it. -/
theorem denotes_escaped (s : List Char) : Denotes (s.flatMap escapeChar) s := by
  induction s with
  | nil => exact .nil
  | cons c s ih =>
      rw [List.flatMap_cons]
      rcases escapeChar_cases c with ⟨h, hquote, hbackslash, hc⟩ | ⟨e, h, he⟩ | ⟨hc, h⟩
      · rw [h]
        exact .plain hquote hbackslash (Nat.not_lt.1 hc) ih
      · rw [h]
        exact .letter he ih
      · have hleading : isLeadingSurrogate c.toNat = false := by
          simp [isLeadingSurrogate]
          omega
        have htrailing : isTrailingSurrogate c.toNat = false := by
          simp [isTrailingSurrogate]
          omega
        have hunit := Denotes.unit (unit?_hexDigit _ hc) hleading htrailing ih
        rw [Char.ofNat_toNat] at hunit
        rw [h]
        exact hunit

/-- A string as it is written. -/
def quoted (s : String) : List Char := '"' :: (s.toList.flatMap escapeChar ++ ['"'])

theorem toList_quote (s : String) : (quote s).toList = quoted s := by
  simp [quote, quoted]

theorem stringText_quoted (s : String) : StringText s (quoted s) :=
  ⟨_, denotes_escaped s.toList, rfl⟩

theorem gives_string (s : String) {behind : List Char → Prop} :
    Gives string (quoted s) (.ok s) behind :=
  (stringText_quoted s).gives_string blanks_nil

end Json

end SelectorExplain
