import SelectorExplain.Proofs.Json.Skipping

set_option autoImplicit false

/-! # Reading natural numbers

A number below `2 ^ 64` is read as it was printed. Its digits have no zero in front of others, so
the reader takes them all (`wholeText_toString`), and its significand has room for each of them
(`foldl_before`). -/

namespace SelectorExplain

namespace Json

/-! ## Printed numbers -/

/-- A positive number does not begin with a zero. -/
theorem head?_toDigits_ne {n : Nat} (h : 0 < n) : (Nat.toDigits 10 n).head? ≠ some '0' := by
  induction n using Nat.strongRecOn with
  | ind n ih =>
      rcases Nat.lt_or_ge n 10 with hsmall | hlarge
      · have hdigit : ∀ d < 10, 0 < d → [Nat.digitChar d].head? ≠ some '0' := by decide
        rw [Nat.toDigits_of_lt_base hsmall]
        exact hdigit n hsmall h
      · have hfront := ih (n / 10) (Nat.div_lt_self h (by decide)) (by omega)
        rw [Nat.toDigits_of_base_le (by decide) hlarge]
        cases hchars : Nat.toDigits 10 (n / 10) with
        | nil => exact absurd hchars Nat.toDigits_ne_nil
        | cons c more =>
            rw [hchars] at hfront
            exact hfront

theorem wholeText_toString (n : Nat) : WholeText (toString n).toList := by
  have hdigits : Digits (toString n).toList := by
    refine ⟨?_, fun c hc => isDigit_of_mem_toString hc⟩
    rw [toList_toString]
    exact Nat.toDigits_ne_nil
  rcases Nat.eq_zero_or_pos n with rfl | hpos
  · exact .inl rfl
  · refine .inr ⟨hdigits, ?_⟩
    rw [toList_toString]
    exact head?_toDigits_ne hpos

/-! ## Significands -/

/-- More digits do not make a number smaller. -/
theorem le_foldl_digits (ds : List Nat) (v : Nat) : v ≤ ds.foldl (fun n d => 10 * n + d) v := by
  induction ds generalizing v with
  | nil => exact Nat.le_refl v
  | cons d ds ih =>
      have hmore := ih (10 * v + d)
      rw [List.foldl_cons]
      omega

/-- No digit is dropped as long as the number fits into 64 bits. -/
theorem foldl_before {ds : List Nat} {v : Nat}
    (h : ds.foldl (fun n d => 10 * n + d) v < Nat.pow 2 64) :
    ds.foldl Significand.before ⟨v, false, 0⟩ = ⟨ds.foldl (fun n d => 10 * n + d) v, false, 0⟩ := by
  induction ds generalizing v with
  | nil => rfl
  | cons d ds ih =>
      rw [List.foldl_cons] at h
      have hroom : v * 10 + d < Nat.pow 2 64 := by
        have hle := le_foldl_digits ds (10 * v + d)
        have hbound : 10 * v + d < Nat.pow 2 64 := Nat.lt_of_le_of_lt hle h
        rwa [Nat.mul_comm] at hbound
      have hstep : Significand.before ⟨v, false, 0⟩ d = ⟨10 * v + d, false, 0⟩ := by
        rw [Significand.before, if_neg (by simpa using hroom), Nat.mul_comm]
      rw [List.foldl_cons, List.foldl_cons, hstep, ih h]

/-! ## Readers -/

section

variable {n : Nat} (hn : n < Nat.pow 2 64)

include hn

theorem gives_numberAfter {ds : List Nat} (h : ds.foldl (fun n d => 10 * n + d) 0 = n) :
    Gives (numberAfter false ds) [] (.ok (.integer n)) Delimited := by
  have hwhole : ds.foldl Significand.before ⟨0, false, 0⟩ = ⟨n, false, 0⟩ := by
    rw [foldl_before (by rw [h]; exact hn), h]
  unfold numberAfter
  rw [hwhole]
  refine Gives.peek_behind fun c rest hrest hc p => ?_
  split
  · exact absurd (hrest '.' hc) (by decide)
  · exact absurd (hrest 'e' hc) (by decide)
  · exact absurd (hrest 'E' hc) (by decide)
  · exact ⟨rfl, rfl⟩

theorem gives_number : Gives (number false) (toString n).toList (.ok (.integer n)) Delimited := by
  have hvalue := foldl_digits_toString n
  rcases wholeText_toString n with hzero | ⟨hdigits, hhead⟩
  · rw [hzero] at hvalue ⊢
    refine Gives.peek (Gives.eat ⟨fun rest p hrest => ?_⟩)
    have hafter := (gives_numberAfter hn hvalue).fits rest p hrest
    show Fits _ _ ((Decoder.peek >>= _) ⟨rest, p⟩)
    rw [run_peek_bind]
    cases hc : rest.head? with
    | none => exact hafter
    | some c =>
        dsimp only
        rw [if_neg (by simp [hrest.noDigit c hc])]
        exact hafter
  · have hnumber := (gives_digits hdigits.2).bind (gives_numberAfter hn hvalue)
      fun rest (hrest : Delimited rest) => hrest.noDigit
    rw [List.append_nil] at hnumber
    obtain ⟨c, more, hchars⟩ := List.exists_cons_of_ne_nil hdigits.1
    have hdigit : c.isDigit = true := hdigits.2 c (by rw [hchars]; simp)
    rw [hchars] at hhead hnumber ⊢
    refine Gives.peek ?_
    dsimp only
    rw [if_neg (by simpa using hhead), if_pos hdigit]
    exact hnumber

/-- A number below the bound is accepted. -/
theorem gives_natural {bound : Nat} (hbound : n < bound) (expected : String) {w : List Char}
    (hw : Blanks w) :
    Gives (natural bound expected) (w ++ (toString n).toList) (.ok n) Delimited := by
  have hnumber := gives_number hn
  obtain ⟨c, more, hchars, hblank, -⟩ := (Spells.nat n).startsItem
  have hdigit : c.isDigit = true := isDigit_of_mem_toString (hchars ▸ List.mem_cons_self)
  have hsign : c ≠ '-' := by
    rintro rfl
    cases hdigit
  rw [hchars] at hnumber ⊢
  refine Gives.token hw hblank ?_
  dsimp only
  rw [if_neg hsign, if_pos hdigit, ← List.append_nil (c :: more)]
  refine hnumber.bind ?_ fun rest hrest => hrest
  dsimp only
  rw [if_pos ⟨Int.natCast_nonneg n, Int.ofNat_lt.2 hbound⟩]
  exact gives_pure n

end

end Json

end SelectorExplain
