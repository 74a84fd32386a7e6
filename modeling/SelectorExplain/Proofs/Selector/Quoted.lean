import Mathlib.Logic.Function.Basic
import SelectorExplain.Proofs.Selector.ReadsOff

set_option autoImplicit false

/-! # Literals between quotes

In a quoted string a backslash makes the next character stand for itself, and the first quote
without one ends the string (`scanQuoted`). An escaped literal between quotes is read as the
literal, up to its own closing quote and no further, whatever stands behind that
(`scanQuoted_escaped`).

Backslashes are escaped first and quotes after them, each in a pass over the whole text, and these
two passes do what one pass for both does (`toList_escapeLiteral`). -/

namespace SelectorExplain

/-! ## Reading -/

/-- Reads a quoted string from behind its opening quote: the characters that it stands for, and what
    is behind the closing quote. A string without a closing quote is not read. -/
def scanQuoted : List Char → Option (List Char × List Char)
  | [] => none
  | '"' :: behind => some ([], behind)
  | ['\\'] => none
  | '\\' :: c :: rest => (scanQuoted rest).map fun (chars, behind) => (c :: chars, behind)
  | c :: rest => (scanQuoted rest).map fun (chars, behind) => (c :: chars, behind)

theorem scanQuoted_plain {c : Char} (h : ¬(c = '\\' ∨ c = '"')) (rest : List Char) :
    scanQuoted (c :: rest) = (scanQuoted rest).map fun (chars, behind) => (c :: chars, behind) := by
  obtain ⟨hbackslash, hquote⟩ := not_or.1 h
  rw [scanQuoted]
  · exact hquote
  · intro hc
    exact absurd hc hbackslash
  · intro _ _ hc
    exact absurd hc hbackslash

/-- Where a string ends does not depend on what stands behind it. -/
theorem scanQuoted_append {text chars behind : List Char}
    (h : scanQuoted text = some (chars, behind)) (more : List Char) :
    scanQuoted (text ++ more) = some (chars, behind ++ more) := by
  fun_induction scanQuoted text generalizing chars behind with
  | case1 => cases h
  | case2 rest =>
      cases h
      rfl
  | case3 => cases h
  | case4 c rest ih =>
      obtain ⟨inner, hinner, heq⟩ := Option.map_eq_some_iff.1 h
      cases heq
      simp [scanQuoted, ih hinner]
  | case5 c rest hquote hlone hescape ih =>
      obtain ⟨inner, hinner, heq⟩ := Option.map_eq_some_iff.1 h
      cases heq
      have hbackslash : c ≠ '\\' := by
        rintro rfl
        cases rest with
        | nil => exact hlone rfl rfl
        | cons d rest => exact hescape d rest rfl rfl
      rw [List.cons_append, scanQuoted_plain (not_or.2 ⟨hbackslash, hquote⟩), ih hinner]
      rfl

/-- An escaped literal is read as the literal, up to the quote behind it. -/
theorem scanQuoted_escaped (chars behind : List Char) :
    scanQuoted (escaped chars ++ '"' :: behind) = some (chars, behind) := by
  induction chars with
  | nil => rfl
  | cons c chars ih =>
      by_cases hc : c = '\\' ∨ c = '"'
      · rw [escaped_cons_of_special hc]
        simp [scanQuoted, ih]
      · rw [escaped_cons_of_not_special hc, List.cons_append, scanQuoted_plain hc, ih]
        rfl

/-- No quote ends an escaped literal before its own closing quote. -/
theorem scanQuoted_of_prefix {part chars : List Char} (h : part <+: escaped chars) :
    scanQuoted part = none := by
  obtain ⟨more, hmore⟩ := h
  by_contra hread
  obtain ⟨⟨inner, behind⟩, hinner⟩ := Option.ne_none_iff_exists'.1 hread
  -- the string would end in front of the closing quote, which would then stand behind it
  have hearly := scanQuoted_append hinner (more ++ ['"'])
  rw [← List.append_assoc, hmore, scanQuoted_escaped chars []] at hearly
  simp at hearly

/-! ## Escapes -/

/-- **An escaped literal between quotes is read back.** From behind the opening quote a reader gets
    the literal and what stands behind the closing quote, whatever that is, and no quote inside the
    literal ends it. So different literals have different escapes. These are made in two passes, one
    for backslashes and one for quotes, and could be made in one. -/
theorem escapeLiteral_quoted :
    (∀ (literal : String) (behind : List Char),
      scanQuoted ((escapeLiteral literal).toList ++ '"' :: behind) =
        some (literal.toList, behind)) ∧
    (∀ (literal : String) (part : List Char), part <+: (escapeLiteral literal).toList →
      scanQuoted part = none) ∧
    Function.Injective escapeLiteral ∧
    ∀ literal : String,
      replaceChar '"' "\\\"" (replaceChar '\\' "\\\\" literal) =
        String.ofList (literal.toList.flatMap fun c =>
          if c = '\\' ∨ c = '"' then ['\\', c] else [c]) := by
  refine ⟨fun literal behind => ?_, fun literal part hpart => ?_, fun _ _ h => escapeLiteral_inj h,
    fun literal => ?_⟩
  · rw [toList_escapeLiteral, scanQuoted_escaped]
  · rw [toList_escapeLiteral] at hpart
    exact scanQuoted_of_prefix hpart
  · have honce := toList_escapeLiteral literal
    rw [← String.toList_inj, String.toList_ofList]
    exact honce

example : scanQuoted "say \\\"hi\\\\\\\"\"]".toList = some ("say \"hi\\\"".toList, [']']) := rfl

end SelectorExplain
