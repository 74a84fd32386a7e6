import SelectorExplain.Proofs.Xml.Characters
import SelectorExplain.Proofs.Xml.OtherTexts

set_option autoImplicit false

/-! # Line ends

A reader of XML takes every carriage return for a line feed, together with a line feed that stands
behind it (`lineEnds`). It does so before it tells tags from texts. In the XML of a document that
comes to the same as doing it in each text and in each value (`lineEnds_render`): no tag has a
carriage return, and behind a text comes a tag and not another line feed. -/

namespace SelectorExplain

namespace Xml

/-! ## Characters -/

/-- The characters with line feeds for all line ends. -/
def lineEnds : List Char → List Char
  | [] => []
  | '\r' :: '\n' :: rest => '\n' :: lineEnds rest
  | '\r' :: rest => '\n' :: lineEnds rest
  | c :: rest => c :: lineEnds rest

theorem lineEnds_cons {c : Char} (h : c ≠ '\r') (rest : List Char) :
    lineEnds (c :: rest) = c :: lineEnds rest := by
  rw [lineEnds]
  · intro _ hc
    exact absurd hc h
  · exact h

/-- A carriage return without a line feed behind it. -/
theorem lineEnds_return {rest : List Char} (h : ∀ c ∈ rest.head?, c ≠ '\n') :
    lineEnds ('\r' :: rest) = '\n' :: lineEnds rest := by
  rw [lineEnds]
  intro more hrest
  rw [hrest] at h
  exact h '\n' rfl rfl

theorem lineEnds_append_of_notMem {run : List Char} (h : '\r' ∉ run) (rest : List Char) :
    lineEnds (run ++ rest) = run ++ lineEnds rest := by
  induction run with
  | nil => rfl
  | cons c run ih =>
      rw [List.mem_cons, not_or] at h
      obtain ⟨hc, hrun⟩ := h
      rw [List.cons_append, lineEnds_cons (Ne.symm hc), ih hrun]
      rfl

theorem lineEnds_eq_self {chars : List Char} (h : '\r' ∉ chars) : lineEnds chars = chars := by
  have happend := lineEnds_append_of_notMem h []
  rwa [List.append_nil, lineEnds, List.append_nil] at happend

theorem return_notMem_lineEnds (chars : List Char) : '\r' ∉ lineEnds chars := by
  fun_induction lineEnds chars with
  | case1 => simp
  | case2 rest ih => simpa using ih
  | case3 rest h ih => simpa using ih
  | case4 c rest h hc ih => simpa [ih] using Ne.symm hc

theorem lineEnds_eq_nil {chars : List Char} : lineEnds chars = [] ↔ chars = [] := by
  fun_cases lineEnds chars <;> simp

theorem head_ne_of_ne_cons {rest : List Char} (h : ∀ more, rest ≠ '\n' :: more) :
    ∀ c ∈ rest.head?, c ≠ '\n' := by
  intro c hc
  rintro rfl
  obtain ⟨more, hmore⟩ := List.head?_eq_some_iff.1 hc
  exact h more hmore

/-- Only a line feed behind a carriage return is not taken for itself. -/
theorem lineEnds_append (a : List Char) {b : List Char} (h : ∀ c ∈ b.head?, c ≠ '\n') :
    lineEnds (a ++ b) = lineEnds a ++ lineEnds b := by
  fun_induction lineEnds a with
  | case1 => rfl
  | case2 rest ih => simp [lineEnds, ih]
  | case3 rest hrest ih =>
      have hbehind : ∀ c ∈ (rest ++ b).head?, c ≠ '\n' := by
        cases rest with
        | nil => exact h
        | cons c rest => simpa using head_ne_of_ne_cons hrest
      rw [List.cons_append, lineEnds_return hbehind, ih]
      rfl
  | case4 c rest hrest hc ih =>
      rw [List.cons_append, lineEnds_cons hc, ih]
      rfl

/-! ## Escapes -/

section

variable {escape : Char → String} (h : Escapes escape)

include h

/-- A control character is no printable one, and so it is written as itself. -/
theorem Escapes.eq_self {c : Char} (hc : ¬Printable c) : escape c = c.toString :=
  (h c).resolve_right fun hother => hc hother.1

theorem Escapes.return_notMem {c : Char} (hc : c ≠ '\r') : '\r' ∉ (escape c).toList := by
  rcases h c with hself | ⟨-, -, hprintable⟩
  · simpa [hself] using Ne.symm hc
  · intro hmem
    exact absurd (hprintable.chars '\r' hmem) (by decide)

/-- What is written begins with a line feed only if the text does. -/
theorem Escapes.head_ne {chars : List Char} (hchars : ∀ c ∈ chars.head?, c ≠ '\n') :
    ∀ c ∈ (chars.flatMap fun c => (escape c).toList).head?, c ≠ '\n' := by
  cases chars with
  | nil => nofun
  | cons c chars =>
      intro x hx
      rcases h c with hself | ⟨-, hne, hprintable⟩
      · have hxc : x = c := by simpa [hself, eq_comm] using hx
        rw [hxc]
        exact hchars c rfl
      · obtain ⟨y, more, hy⟩ := List.exists_cons_of_ne_nil (mt String.toList_eq_nil_iff.1 hne)
        obtain rfl : x = y := by simpa [hy, eq_comm] using hx
        rintro rfl
        exact absurd (hprintable.chars '\n' (by simp [hy])) (by decide)

/-- Line ends are taken for line feeds in the escapes of a text as in the text. -/
theorem lineEnds_escape (chars : List Char) :
    lineEnds (chars.flatMap fun c => (escape c).toList) =
      (lineEnds chars).flatMap fun c => (escape c).toList := by
  have hreturn : (escape '\r').toList = ['\r'] := by rw [h.eq_self (by decide)]; rfl
  have hline : (escape '\n').toList = ['\n'] := by rw [h.eq_self (by decide)]; rfl
  fun_induction lineEnds chars with
  | case1 => rfl
  | case2 rest ih => simp [hreturn, hline, lineEnds, ih]
  | case3 rest hrest ih =>
      have hbehind := h.head_ne (head_ne_of_ne_cons hrest)
      rw [List.flatMap_cons, hreturn, List.singleton_append, lineEnds_return hbehind, ih,
        List.flatMap_cons, hline]
      rfl
  | case4 c rest hrest hc ih =>
      rw [List.flatMap_cons, lineEnds_append_of_notMem (h.return_notMem hc), ih, List.flatMap_cons]

end

/-! ## Marks -/

/-- The text with line feeds for all line ends. -/
def normalizeText (s : String) : String := .ofList (lineEnds s.toList)

@[simp] theorem toList_normalizeText (s : String) :
    (normalizeText s).toList = lineEnds s.toList := String.toList_ofList

theorem lineEnds_escapeText (s : String) :
    lineEnds (escapeText s).toList = (escapeText (normalizeText s)).toList := by
  have hjoin := lineEnds_escape escapes_textChar s.toList
  simpa [escapeText, String.toList_join, List.flatMap_map] using hjoin

theorem lineEnds_escapeValue (s : String) :
    lineEnds (escapeValue s).toList = (escapeValue (normalizeText s)).toList := by
  have hjoin := lineEnds_escape escapes_valueChar s.toList
  simpa [escapeValue, String.toList_join, List.flatMap_map] using hjoin

theorem IsName.return_notMem {s : String} (h : IsName s) : '\r' ∉ s.toList := by
  intro hmem
  exact absurd (h.chars '\r' hmem) (by decide)

theorem lineEnds_attributesText {attributes : List (String × String)}
    (h : ∀ a ∈ attributes, IsName a.1) (rest : List Char) :
    lineEnds ((attributesText attributes).toList ++ rest) =
      (attributesText (attributes.map fun a => (a.1, normalizeText a.2))).toList ++
        lineEnds rest := by
  induction attributes with
  | nil => simp [attributesText]
  | cons a attributes ih =>
      have hmore := ih fun a ha => h a (by simp [ha])
      have hname : '\r' ∉ ' ' :: (a.1.toList ++ ['=', '"']) := by
        simpa using (h a (by simp)).return_notMem
      have hfront (value rest : List Char) :
          ' ' :: (a.1.toList ++ '=' :: '"' :: (value ++ '"' :: rest)) =
            (' ' :: (a.1.toList ++ ['=', '"'])) ++ (value ++ '"' :: rest) := by
        simp
      rw [List.map_cons, toList_attributesText_cons, toList_attributesText_cons, hfront, hfront,
        lineEnds_append_of_notMem hname, lineEnds_append _ (by simp), lineEnds_escapeValue,
        lineEnds_cons (by decide), hmore]

/-- A start tag or an empty tag, up to its end. -/
theorem lineEnds_tag {name : String} {attributes : List (String × String)} (hname : IsName name)
    (h : ∀ a ∈ attributes, IsName a.1) (rest : List Char) :
    lineEnds ('<' :: (name.toList ++ ((attributesText attributes).toList ++ rest))) =
      '<' :: (name.toList ++
        ((attributesText (attributes.map fun a => (a.1, normalizeText a.2))).toList ++
          lineEnds rest)) := by
  rw [lineEnds_cons (by decide), lineEnds_append_of_notMem hname.return_notMem,
    lineEnds_attributesText h]

theorem lineEnds_mark {m : Mark} (h : m.HasNames) {rest : List Char}
    (hrest : m.isText = true → ∀ c ∈ rest.head?, c ≠ '\n') :
    lineEnds (m.render.toList ++ rest) =
      (m.mapStrings normalizeText normalizeText).render.toList ++ lineEnds rest := by
  cases m with
  | declaration => exact lineEnds_append_of_notMem (by decide) rest
  | opening name attributes =>
      have hend := lineEnds_cons (by decide : '>' ≠ '\r') rest
      have htag := lineEnds_tag h.1 h.2 ('>' :: rest)
      rw [hend] at htag
      simpa [Mark.render, Mark.mapStrings] using htag
  | void name attributes =>
      have hend : lineEnds ('/' :: '>' :: rest) = '/' :: '>' :: lineEnds rest :=
        lineEnds_append_of_notMem (by decide : '\r' ∉ ['/', '>']) rest
      have htag := lineEnds_tag h.1 h.2 ('/' :: '>' :: rest)
      rw [hend] at htag
      simpa [Mark.render, Mark.mapStrings] using htag
  | closing name =>
      refine lineEnds_append_of_notMem ?_ rest
      simpa [Mark.render] using IsName.return_notMem h
  | text content =>
      rw [Mark.mapStrings, Mark.render, Mark.render, lineEnds_append _ (hrest rfl),
        lineEnds_escapeText]

/-- Taking line ends for line feeds in a document is doing so in its texts and values. -/
theorem lineEnds_render {marks : List Mark} (h : Readable marks) :
    lineEnds (render marks) =
      render (marks.map (Mark.mapStrings normalizeText normalizeText)) := by
  induction h with
  | nil => rfl
  | @tag m rest hm hnames hrest ih =>
      rw [List.map_cons, render_cons, render_cons, lineEnds_mark hnames (by simp [hm]), ih]
  | @text content rest hne hnext hrest ih =>
      -- behind a text comes a tag, and not a line feed that would count with a carriage return
      have hbehind : ∀ c ∈ (render rest).head?, c ≠ '\n' := by
        intro c hc
        rw [hrest.starts hnext c hc]
        decide
      have hnames : (Mark.text content).HasNames := trivial
      rw [List.map_cons, render_cons, render_cons, lineEnds_mark hnames fun _ => hbehind, ih]

end Xml

end SelectorExplain
