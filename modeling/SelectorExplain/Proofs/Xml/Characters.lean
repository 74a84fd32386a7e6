import Mathlib.Logic.Basic
import SelectorExplain.Proofs.Xml.Regions

set_option autoImplicit false

/-! # The characters of a document

Whether all characters of a document are of some kind depends on its text and its namespace alone,
as long as printable ASCII and line breaks are of that kind: that is all there is besides, in
escapes, in names and in the layout (`Document.forall_mem_toXml`). The same is true of its character
data and the text, and of its attribute values and the namespace. -/

namespace SelectorExplain

namespace Xml

open SelectorExplain.Tree

/-! ## Printable characters -/

/-- The characters that escapes, names and words consist of are among these. -/
def Printable (c : Char) : Prop := 0x20 ≤ c.toNat ∧ c.toNat ≤ 0x7e

instance (c : Char) : Decidable (Printable c) := inferInstanceAs (Decidable (_ ∧ _))

/-- Texts of printable characters. -/
def PrintableText (s : String) : Prop := s.toList.all (Printable ·) = true

instance (s : String) : Decidable (PrintableText s) := inferInstanceAs (Decidable (_ = true))

theorem PrintableText.chars {s : String} (h : PrintableText s) : ∀ c ∈ s.toList, Printable c := by
  simpa [PrintableText] using h

/-- The words for operators are printable. -/
theorem printable_name (op : Operator) : PrintableText op.name := by
  cases op <;> decide

theorem printable_of_isNameChar {c : Char} (h : isNameChar c = true) : Printable c := by
  have hranges : (((65 ≤ c.toNat ∧ c.toNat ≤ 90) ∨ (97 ≤ c.toNat ∧ c.toNat ≤ 122)) ∨
      (48 ≤ c.toNat ∧ c.toNat ≤ 57)) ∨ c = '-' ∨ c = '_' ∨ c = ':' ∨ c = '.' := by
    delta isNameChar Char.isAlphanum Char.isAlpha Char.isUpper Char.isLower Char.isDigit at h
    simpa [UInt32.le_iff_toNat_le] using h
  rcases hranges with ((⟨hlow, hhigh⟩ | ⟨hlow, hhigh⟩) | ⟨hlow, hhigh⟩) | rfl | rfl | rfl | rfl
  · exact ⟨Nat.le_trans (by decide) hlow, Nat.le_trans hhigh (by decide)⟩
  · exact ⟨Nat.le_trans (by decide) hlow, Nat.le_trans hhigh (by decide)⟩
  · exact ⟨Nat.le_trans (by decide) hlow, Nat.le_trans hhigh (by decide)⟩
  · decide
  · decide
  · decide
  · decide

/-- What a character is written as: either the character itself, or if it is printable, something
    printable. -/
def Escapes (escape : Char → String) : Prop :=
  ∀ c, escape c = c.toString ∨ Printable c ∧ escape c ≠ "" ∧ PrintableText (escape c)

theorem escapes_textChar : Escapes textChar := by
  intro c
  unfold textChar
  split
  · exact .inr (by decide)
  · exact .inr (by decide)
  · exact .inr (by decide)
  · exact .inl rfl

theorem escapes_valueChar : Escapes valueChar := by
  intro c
  unfold valueChar
  split
  · exact .inr (by decide)
  · exact .inr (by decide)
  · exact .inr (by decide)
  · exact .inr (by decide)
  · exact .inr (by decide)
  · exact .inl rfl

section

variable {P : Char → Prop} (hP : ∀ c, Printable c → P c)

include hP

theorem forall_mem_escape {escape : Char → String} (hescape : Escapes escape) (chars : List Char) :
    (∀ c ∈ (String.join (chars.map escape)).toList, P c) ↔ ∀ c ∈ chars, P c := by
  have hchar (c : Char) : (∀ x ∈ (escape c).toList, P x) ↔ P c := by
    rcases hescape c with hself | ⟨hc, -, hx⟩
    · simp [hself]
    · exact ⟨fun _ => hP c hc, fun _ x hmem => hP x (hx.chars x hmem)⟩
  simp only [String.toList_join, List.forall_mem_flatMap, List.forall_mem_map, hchar]

theorem forall_mem_escapeText (s : String) :
    (∀ c ∈ (escapeText s).toList, P c) ↔ ∀ c ∈ s.toList, P c :=
  forall_mem_escape hP escapes_textChar s.toList

theorem forall_mem_escapeValue (s : String) :
    (∀ c ∈ (escapeValue s).toList, P c) ↔ ∀ c ∈ s.toList, P c :=
  forall_mem_escape hP escapes_valueChar s.toList

theorem forall_mem_name {s : String} (h : IsName s) : ∀ c ∈ s.toList, P c := by
  intro c hc
  exact hP c (printable_of_isNameChar (h.chars c hc))

theorem forall_mem_attributesText {attributes : List (String × String)}
    (h : ∀ a ∈ attributes, IsName a.1) :
    (∀ c ∈ (attributesText attributes).toList, P c) ↔
      ∀ a ∈ attributes, ∀ c ∈ a.2.toList, P c := by
  induction attributes with
  | nil => simp [attributesText]
  | cons a attributes ih =>
      have hmore := ih fun a ha => h a (by simp [ha])
      have hname := forall_mem_name hP (h a (by simp))
      have hvalue := forall_mem_escapeValue hP a.2
      have hplain : P ' ' ∧ P '=' ∧ P '"' :=
        ⟨hP _ (by decide), hP _ (by decide), hP _ (by decide)⟩
      have htext := @toList_attributesText_cons attributes a []
      rw [List.append_nil, List.append_nil] at htext
      rw [htext]
      simp only [List.forall_mem_cons, List.forall_mem_append, hvalue, hmore, hplain, true_and]
      exact and_iff_right hname

/-- Whatever else is in a mark is printable. -/
theorem forall_mem_mark {m : Mark} (h : m.HasNames) :
    (∀ c ∈ m.render.toList, P c) ↔
      (∀ c ∈ m.data.toList, P c) ∧ ∀ v ∈ m.values, ∀ c ∈ v.toList, P c := by
  have hprintable {s : String} (hs : PrintableText s) : ∀ c ∈ s.toList, P c :=
    fun c hc => hP c (hs.chars c hc)
  have hempty : ∀ c ∈ "".toList, P c := hprintable (by decide)
  have hopen : ∀ c ∈ "<".toList, P c := hprintable (by decide)
  have hclose : ∀ c ∈ ">".toList, P c := hprintable (by decide)
  cases m with
  | declaration =>
      have hrender : ∀ c ∈ Mark.declaration.render.toList, P c := hprintable (by decide)
      have hversion : ∀ c ∈ "1.0".toList, P c := hprintable (by decide)
      exact iff_of_true hrender ⟨hempty, by simpa [Mark.values] using hversion⟩
  | opening name attributes =>
      have hname := forall_mem_name hP h.1
      have hattributes := forall_mem_attributesText hP h.2
      simp only [Mark.render, Mark.data, Mark.values, String.toList_append, List.forall_mem_append,
        List.forall_mem_map, hattributes]
      exact ⟨fun hall => ⟨hempty, hall.1.2⟩, fun hall => ⟨⟨⟨hopen, hname⟩, hall.2⟩, hclose⟩⟩
  | void name attributes =>
      have hname := forall_mem_name hP h.1
      have hattributes := forall_mem_attributesText hP h.2
      have hvoid : ∀ c ∈ "/>".toList, P c := hprintable (by decide)
      simp only [Mark.render, Mark.data, Mark.values, String.toList_append, List.forall_mem_append,
        List.forall_mem_map, hattributes]
      exact ⟨fun hall => ⟨hempty, hall.1.2⟩, fun hall => ⟨⟨⟨hopen, hname⟩, hall.2⟩, hvoid⟩⟩
  | closing name =>
      have hname := forall_mem_name hP h
      have hslash : ∀ c ∈ "</".toList, P c := hprintable (by decide)
      simp only [Mark.render, Mark.data, Mark.values, String.toList_append, List.forall_mem_append]
      exact iff_of_true ⟨⟨hslash, hname⟩, hclose⟩ ⟨hempty, by simp⟩
  | text content =>
      simp [Mark.render, Mark.data, Mark.values, forall_mem_escapeText hP]

variable {marks : List Mark} (h : ∀ m ∈ marks, m.HasNames) {text : String}
  (htext : text.toList = render marks)

include h htext

/-- All characters of a text are right if those of the data and of the values are. -/
theorem forall_mem_text :
    (∀ c ∈ text.toList, P c) ↔ (∀ m ∈ marks, ∀ c ∈ m.data.toList, P c) ∧
      ∀ m ∈ marks, ∀ v ∈ m.values, ∀ c ∈ v.toList, P c := by
  rw [htext, render, List.forall_mem_flatMap, ← forall₂_and]
  exact forall₂_congr fun m hm => forall_mem_mark hP (h m hm)

theorem forall_mem_dataIn :
    (∀ c ∈ dataIn text, P c) ↔ ∀ m ∈ marks, ∀ c ∈ m.data.toList, P c := by
  simp only [dataIn_eq h htext, List.forall_mem_flatMap, forall_mem_escapeText hP]

theorem forall_mem_valuesIn :
    (∀ c ∈ valuesIn text, P c) ↔ ∀ m ∈ marks, ∀ v ∈ m.values, ∀ c ∈ v.toList, P c := by
  simp only [valuesIn_eq h htext, List.forall_mem_flatMap, forall_mem_escapeValue hP]

end

/-! ## Documents -/

/-- The space between marks is all that is added to them. -/
theorem forall_mem_spread {Q : Mark → Prop}
    (hspace : ∀ n, Q (.text ("\n" ++ "".pushn ' ' n))) (indent : Option Nat) (fresh : Bool)
    (marks : List (Nat × Mark)) :
    (∀ m ∈ spread indent fresh marks, Q m) ↔ ∀ m ∈ marks, Q m.2 := by
  have hgap (fresh : Bool) (depth : Nat) (m : Mark) : ∀ x ∈ gap indent fresh depth m, Q x := by
    unfold gap
    split
    · nofun
    · split
      · simpa using hspace _
      · nofun
  induction marks generalizing fresh with
  | nil => simp [spread]
  | cons m rest ih =>
      obtain ⟨depth, m⟩ := m
      have hrest := ih (!m.isText)
      rw [spread, List.forall_mem_append, List.forall_mem_cons, List.forall_mem_cons]
      exact (and_iff_right (hgap fresh depth m)).trans (and_congr_right fun _ => hrest)

/-- What holds of a declaration and of layout holds of all marks of a document if it holds of those
    of its trees. -/
theorem forall_mem_laidOut {Q : Mark → Prop} (hdeclaration : Q .declaration)
    (hspace : ∀ n, Q (.text ("\n" ++ "".pushn ' ' n))) (layout : Layout) (ts : List Tree) :
    (∀ m ∈ laidOut layout ts, Q m) ↔ ∀ m ∈ marksOfForest 0 (some layout.space) ts, Q m.2 := by
  have hline : Q (.text "\n") := hspace 0
  have hfirst : ∀ m ∈ declarationMarks layout, Q m := by
    unfold declarationMarks
    split
    · rw [List.forall_mem_cons]
      refine ⟨hdeclaration, ?_⟩
      split
      · simpa using hline
      · nofun
    · nofun
  rw [laidOut, List.forall_mem_append, forall_mem_spread hspace, List.forall_mem_append]
  simpa using ⟨fun h => h.2.1, fun h => ⟨hfirst, h, hline⟩⟩

/-- Data between the tags of trees is their text. -/
theorem forall_mem_data_marksOfForest (P : Char → Prop) (depth : Nat) (space : Option String)
    (ts : List Tree) :
    (∀ m ∈ marksOfForest depth space ts, ∀ c ∈ m.2.data.toList, P c) ↔
      ∀ c ∈ (textOfForest ts).toList, P c := by
  rw [← characterData_marksOfForest depth space ts, characterData, String.toList_join]
  simp only [List.forall_mem_flatMap, List.forall_mem_map]

/-- The values in a tag are the namespace, if it declares one, and an operator. -/
theorem forall_mem_values_attributes {P : Char → Prop} (hP : ∀ c, Printable c → P c)
    (space : Option String) (operator : Option Operator) :
    (∀ v ∈ (attributes space operator).map (·.2), ∀ c ∈ v.toList, P c) ↔
      ∀ s ∈ space, ∀ c ∈ s.toList, P c := by
  have hword : ∀ op ∈ operator, ∀ c ∈ op.name.toList, P c := by
    intro op _ c hc
    exact hP c ((printable_name op).chars c hc)
  have hvalues : (attributes space operator).map (·.2) =
      space.toList ++ operator.toList.map Operator.name := by
    cases space <;> cases operator <;> rfl
  rw [hvalues, List.forall_mem_append]
  simp only [Option.mem_toList, List.forall_mem_map]
  exact and_iff_left hword

/-- The values in the tags of trees are the namespace, on their roots, and operators. -/
theorem forall_mem_values_marksOfForest {P : Char → Prop} (hP : ∀ c, Printable c → P c)
    (depth : Nat) (space : Option String) (ts : List Tree) :
    (∀ m ∈ marksOfForest depth space ts, ∀ v ∈ m.2.values, ∀ c ∈ v.toList, P c) ↔
      (ts ≠ [] → ∀ s ∈ space, ∀ c ∈ s.toList, P c) := by
  induction ts using forestInduction generalizing depth space with
  | nil => simp [marksOfForest]
  | cons tag operator text children rest ihChildren ihRest =>
      have hbelow := (ihChildren (depth + 1) none).2 fun _ => nofun
      have hcontents : ∀ m ∈ contents (depth + 1) (text.getD "") children,
          ∀ v ∈ m.2.values, ∀ c ∈ v.toList, P c := by
        unfold contents
        split
        · exact hbelow
        · exact List.forall_mem_cons.2 ⟨nofun, hbelow⟩
      have hnode : (∀ m ∈ marks depth space (.node tag operator text children),
          ∀ v ∈ m.2.values, ∀ c ∈ v.toList, P c) ↔ ∀ s ∈ space, ∀ c ∈ s.toList, P c := by
        rw [← forall_mem_values_attributes hP space operator, marks_node]
        split
        · exact List.forall_mem_singleton
        · rw [List.forall_mem_cons, List.forall_mem_append, List.forall_mem_singleton]
          exact and_iff_left ⟨hcontents, nofun⟩
      rw [marksOfForest_cons, List.forall_mem_append, hnode, ihRest depth space]
      exact ⟨fun h _ => h.1, fun h => ⟨h (List.cons_ne_nil _ _), fun _ => h (List.cons_ne_nil _ _)⟩⟩

theorem Readable.hasNames {marks : List Mark} (h : Readable marks) : ∀ m ∈ marks, m.HasNames := by
  induction h with
  | nil => nofun
  | tag hm hnames hrest ih => exact List.forall_mem_cons.2 ⟨hnames, ih⟩
  | text hne hnext hrest ih => exact List.forall_mem_cons.2 ⟨trivial, ih⟩

end Xml

namespace Document

open SelectorExplain.Tree SelectorExplain.Xml

section

variable {P : Char → Prop} (hP : ∀ c, Printable c → P c) {d : Document} (hroots : d.isEmpty = false)
  (hforest : d.forest ≠ []) (layout : Layout)

include hP hroots hforest

/-- The character data of a document is its text, apart from line breaks and spaces. -/
theorem forall_mem_dataIn_toXml (hline : P '\n') :
    (∀ c ∈ dataIn (d.toXml layout), P c) ↔ ∀ c ∈ d.text.toList, P c := by
  have hspace : ∀ n, ∀ c ∈ (Mark.text ("\n" ++ "".pushn ' ' n)).data.toList, P c := by
    intro n c hc
    rcases mem_line hc with rfl | rfl
    · exact hline
    · exact hP _ (by decide)
  have hdeclaration : ∀ c ∈ Mark.declaration.data.toList, P c := by simp [Mark.data]
  rw [forall_mem_dataIn hP (readable_laidOut hforest layout).hasNames (toList_toXml hroots layout),
    forall_mem_laidOut hdeclaration hspace, forall_mem_data_marksOfForest]
  rfl

/-- The attribute values of a document are the namespace, apart from words. -/
theorem forall_mem_valuesIn_toXml :
    (∀ c ∈ valuesIn (d.toXml layout), P c) ↔ ∀ c ∈ layout.space.toList, P c := by
  have hversion : ∀ v ∈ Mark.declaration.values, ∀ c ∈ v.toList, P c := by
    intro v hv c hc
    rw [List.mem_singleton.1 hv] at hc
    have hprintable : PrintableText "1.0" := by decide
    exact hP c (hprintable.chars c hc)
  rw [forall_mem_valuesIn hP (readable_laidOut hforest layout).hasNames
    (toList_toXml hroots layout), forall_mem_laidOut hversion fun _ => nofun,
    forall_mem_values_marksOfForest hP]
  simp [hforest]

/-- All characters of a document are those of its text and of the namespace, apart from line breaks
    and printable ones. -/
theorem forall_mem_toXml (hline : P '\n') :
    (∀ c ∈ (d.toXml layout).toList, P c) ↔
      (∀ c ∈ d.text.toList, P c) ∧ ∀ c ∈ layout.space.toList, P c := by
  have hnames := (readable_laidOut hforest layout).hasNames
  have hmarks := toList_toXml hroots layout
  rw [forall_mem_text hP hnames hmarks, ← forall_mem_dataIn hP hnames hmarks,
    ← forall_mem_valuesIn hP hnames hmarks, forall_mem_dataIn_toXml hP hroots hforest layout hline,
    forall_mem_valuesIn_toXml hP hroots hforest layout]

end

end Document

end SelectorExplain
