import SelectorExplain.Proofs.Xml.LineEnds

set_option autoImplicit false

/-! # Conforming readers

A reader that keeps to XML 1.0 refuses a document with a character that XML does not allow. It takes
all line ends for line feeds first, and then all breaks in attribute values for spaces, and it wants
one root with only blanks around (`readDocument`). What it makes of the XML of a document with one
root is that root, with these changes to texts and to the namespace (`readDocument_toXml`). The only
references that it knows are entities, since documents are written with no others. -/

namespace SelectorExplain

namespace Xml

open SelectorExplain.Tree

/-! ## Characters -/

/-- The characters that are taken for something else, in values or everywhere. -/
def isBreak (c : Char) : Bool := c ∈ ['\t', '\n', '\r']

/-- The characters that XML allows. -/
def isLegal (c : Char) : Bool :=
  isBreak c || (0x20 ≤ c.toNat && c.toNat ≤ 0xd7ff) || (0xe000 ≤ c.toNat && c.toNat ≤ 0xfffd) ||
    (0x10000 ≤ c.toNat && c.toNat ≤ 0x10ffff)

theorem isLegal_of_printable {c : Char} (h : Printable c) : isLegal c = true := by
  obtain ⟨hlow, hhigh⟩ := h
  have hrange : c.toNat ≤ 0xd7ff := Nat.le_trans hhigh (by decide)
  simp [isLegal, hlow, hrange]

theorem isBreak_of_printable {c : Char} (h : Printable c) : isBreak c = false := by
  refine Bool.eq_false_iff.2 fun hbreak => ?_
  simp only [isBreak, List.mem_cons, List.not_mem_nil, or_false, decide_eq_true_eq] at hbreak
  rcases hbreak with rfl | rfl | rfl <;> exact absurd h (by decide)

/-! ## Texts and values -/

theorem normalizeText_eq_self {s : String} (h : '\r' ∉ s.toList) : normalizeText s = s := by
  rw [normalizeText, lineEnds_eq_self h, String.ofList_toList]

theorem normalizeText_eq_empty (s : String) : normalizeText s = "" ↔ s = "" := by
  rw [← String.toList_eq_nil_iff, toList_normalizeText, lineEnds_eq_nil, String.toList_eq_nil_iff]

/-- The value with spaces for all breaks. -/
def spaced (s : String) : String := s.map fun c => if isBreak c then ' ' else c

/-- What a value is taken for. -/
def normalizeValue (s : String) : String := spaced (normalizeText s)

theorem spaced_eq_self {s : String} (h : ∀ c ∈ s.toList, isBreak c = false) : spaced s = s := by
  have hsame : s.toList.map (fun c => if isBreak c then ' ' else c) = s.toList.map id := by
    refine List.map_congr_left fun c hc => ?_
    simp [h c hc]
  rw [← String.toList_inj, spaced, String.toList_map, hsame, List.map_id]

theorem isBreak_of_mem_spaced {s : String} {c : Char} (h : c ∈ (spaced s).toList) :
    isBreak c = false := by
  rw [spaced, String.toList_map] at h
  obtain ⟨x, -, rfl⟩ := List.mem_map.1 h
  split
  · rfl
  · next hx => exact Bool.eq_false_iff.2 hx

/-- Only a value without breaks is taken for itself. -/
theorem normalizeValue_eq_self {s : String} :
    normalizeValue s = s ↔ ∀ c ∈ s.toList, isBreak c = false := by
  constructor
  · intro h c hc
    rw [← h] at hc
    exact isBreak_of_mem_spaced hc
  · intro h
    have hreturn : '\r' ∉ s.toList := fun hmem => absurd (h '\r' hmem) (by decide)
    rw [normalizeValue, normalizeText_eq_self hreturn, spaced_eq_self h]

example : normalizeValue "a\r\nb\tc" = "a b c" := by decide +kernel

/-! ## Marks -/

section

variable (layout : Layout) (ts : List Tree)

/-- A word for an operator has no break. -/
theorem isBreak_of_mem_name {op : Operator} {c : Char} (h : c ∈ op.name.toList) :
    isBreak c = false :=
  isBreak_of_printable ((printable_name op).chars c h)

theorem map_laidOut_normalizeText :
    (laidOut layout ts).map (Mark.mapStrings normalizeText normalizeText) =
      laidOut { layout with space := normalizeText layout.space }
        (mapTextsForest normalizeText ts) := by
  refine map_laidOut normalizeText_eq_empty (fun n => ?_) (fun op => ?_) layout ts
  · refine normalizeText_eq_self fun hmem => ?_
    exact absurd (mem_line hmem) (by decide)
  · refine normalizeText_eq_self fun hmem => ?_
    exact absurd (isBreak_of_mem_name hmem) (by decide)

theorem map_laidOut_spaced :
    (laidOut layout ts).map (Mark.mapStrings id spaced) =
      laidOut { layout with space := spaced layout.space } ts := by
  have hself : mapTextsForest id ts = ts :=
    mapTextsForest_eq_self (P := fun _ => True) (fun _ _ => rfl) fun _ _ => trivial
  rw [map_laidOut (f := id) (fun _ => Iff.rfl) (fun _ => rfl) (fun op => ?_), hself]
  exact spaced_eq_self fun c hc => isBreak_of_mem_name hc

end

/-! ## Roots -/

/-- Blanks may stand around the root. -/
def Item.isSpace : Item → Bool
  | .data content => content.toList.all isBlank
  | .element .. => false

/-- Marks that become so many items, if blanks do not count. -/
def HasRoots (count : Nat) (marks : List Mark) : Prop :=
  ∃ items, Nests marks items ∧ items.countP (!·.isSpace) = count

/-- What marks become depends on them alone. -/
theorem Nests.unique {marks : List Mark} {items items' : List Item} (h : Nests marks items)
    (h' : Nests marks items') : items = items' := by
  have hnest := (h [] [] []).symm.trans (h' [] [] [])
  simpa [nest] using hnest

theorem HasRoots.append {m n : Nat} {a b : List Mark} (ha : HasRoots m a) (hb : HasRoots n b) :
    HasRoots (m + n) (a ++ b) := by
  obtain ⟨items, hitems, hm⟩ := ha
  obtain ⟨more, hmore, hn⟩ := hb
  refine ⟨items ++ more, fun stack inside rest => ?_, by rw [List.countP_append, hm, hn]⟩
  rw [List.append_assoc, hitems, hmore, List.append_assoc]

theorem hasRoots_nil : HasRoots 0 [] := by
  refine ⟨[], fun stack inside rest => ?_, rfl⟩
  simp

/-- Line breaks and indentation are blanks. -/
theorem hasRoots_line (n : Nat) : HasRoots 0 [.text ("\n" ++ "".pushn ' ' n)] := by
  have hspace : (Item.data ("\n" ++ "".pushn ' ' n)).isSpace = true := by
    rw [Item.isSpace, List.all_eq_true]
    intro c hc
    rcases mem_line hc with rfl | rfl
    · rfl
    · rfl
  refine ⟨[.data ("\n" ++ "".pushn ' ' n)], fun stack inside rest => ?_, by simp [hspace]⟩
  simp [nest]

theorem hasRoots_gap (indent : Option Nat) (fresh : Bool) (depth : Nat) (m : Mark) :
    HasRoots 0 (gap indent fresh depth m) := by
  unfold gap
  split
  · exact hasRoots_nil
  · split
    · exact hasRoots_line _
    · exact hasRoots_nil

theorem hasRoots_void (name : String) (attributes : List (String × String)) :
    HasRoots 1 [.void name attributes] := by
  refine ⟨[.element name attributes []], fun stack inside rest => ?_, rfl⟩
  simp [nest]

/-- Tags around whatever is nested make one item. -/
theorem hasRoots_element {inside : List Mark} {items : List Item} (h : Nests inside items)
    (name : String) (attributes : List (String × String)) :
    HasRoots 1 (.opening name attributes :: (inside ++ [.closing name])) := by
  refine ⟨[.element name attributes items], fun stack before rest => ?_, rfl⟩
  rw [List.cons_append, List.append_assoc, nest, h]
  simp [nest]

/-- A tree becomes one item. -/
theorem hasRoots_marks {t : Tree} (h : TextLeaves [t]) (indent : Option Nat) (fresh : Bool)
    (space : Option String) : HasRoots 1 (spread indent fresh (marks 0 space t)) := by
  cases h with
  | @text content _ hne _ =>
      have hdata : Nests [.text content] [.data content] := by
        intro stack inside rest
        simp [nest]
      have hgap := hasRoots_gap indent fresh 0 (.opening Tag.text.label (attributes space none))
      have htext := hgap.append (hasRoots_element hdata Tag.text.label (attributes space none))
      rw [marks_ofText 0 space hne]
      simpa [spread, Mark.isText] using htext
  | @element tag operator children _ _ hchildren _ =>
      rw [marks_element]
      split
      · have hgap := hasRoots_gap indent fresh 0 (.void tag.label (attributes space operator))
        simpa [spread] using hgap.append (hasRoots_void tag.label (attributes space operator))
      · obtain ⟨items, hitems, -⟩ := (shows_marksOfForest hchildren indent true 1 none).append
          (shows_gap indent true 0 (.closing tag.label))
        have hgap := hasRoots_gap indent fresh 0 (.opening tag.label (attributes space operator))
        have helement := hgap.append
          (hasRoots_element hitems tag.label (attributes space operator))
        rw [spread, spread_append]
        simpa [spread, Mark.isText, freshAfter_marksOfForest] using helement

theorem hasRoots_laidOut {t : Tree} (h : TextLeaves [t]) (layout : Layout) :
    HasRoots 1 (body (laidOut layout [t])) := by
  have hline : HasRoots 0 [.text "\n"] := hasRoots_line 0
  have hspread : HasRoots 1 (spread layout.indent layout.declaration
      (marksOfForest 0 (some layout.space) [t] ++ [(0, .text "\n")])) := by
    have hmarks := hasRoots_marks h layout.indent layout.declaration (some layout.space)
    rw [spread_append]
    simpa [spread, marksOfForest] using hmarks.append hline
  rw [laidOut, declarationMarks]
  split
  · have hend : HasRoots 0 (if layout.indent.isNone then [.text "\n"] else []) := by
      split
      · exact hline
      · exact hasRoots_nil
    simpa [body] using hend.append hspread
  · rw [List.nil_append, (shows_spread h layout).body_eq]
    exact hspread

/-- The marks of a document with one root are nested in one way, and the root is found. -/
theorem nest_laidOut {t : Tree} (h : TextLeaves [t]) (layout : Layout) :
    ∃ items, nest [] [] (body (laidOut layout [t])) = some items ∧
      items.countP (!·.isSpace) = 1 ∧ elements items = some [declare (some layout.space) t] := by
  obtain ⟨items, hitems, helements⟩ := shows_laidOut h layout
  obtain ⟨items', hitems', hroot⟩ := hasRoots_laidOut h layout
  obtain rfl := hitems.unique hitems'
  refine ⟨items, ?_, hroot, helements⟩
  simpa [nest] using hitems [] [] []

/-! ## Documents -/

/-- Reads a document with one root as XML says, or refuses it. -/
def readDocument (text : String) : Option Declared :=
  if text.toList.all isLegal then do
    let marks ← scan (normalizeText text)
    let items ← nest [] [] (body (marks.map (Mark.mapStrings id spaced)))
    if items.countP (!·.isSpace) = 1 then (← elements items).head? else none
  else none

mutual

/-- What is declared tells the namespace and the tree. -/
theorem declare_inj {space space' : Option String} {t u : Tree}
    (h : declare space t = declare space' u) : space = space' ∧ t = u := by
  obtain ⟨tag, operator, text, children⟩ := t
  obtain ⟨tag', operator', text', children'⟩ := u
  rw [declare, declare, Declared.node.injEq] at h
  obtain ⟨hspace, htag, hoperator, htext, hchildren⟩ := h
  rw [htag, hoperator, htext, declareForest_inj hchildren]
  exact ⟨hspace, rfl⟩

theorem declareForest_inj {space : Option String} {ts us : List Tree}
    (h : declareForest space ts = declareForest space us) : ts = us := by
  match ts, us with
  | [], [] => rfl
  | [], _ :: _ => cases h
  | _ :: _, [] => cases h
  | t :: ts, u :: us =>
      obtain ⟨htree, hrest⟩ := List.cons.inj h
      rw [(declare_inj htree).2, declareForest_inj hrest]

end

/-- A tree is taken for itself if no line end in its texts is taken for another one. -/
theorem mapTexts_normalizeText_eq_self {t : Tree} :
    t.mapTexts normalizeText = t ↔ '\r' ∉ t.text.toList := by
  have hforest : t.mapTexts normalizeText = t ↔ mapTextsForest normalizeText [t] = [t] := by
    simp [mapTextsForest]
  have htext : textOfForest [t] = t.text := by simp
  rw [hforest, ← htext]
  constructor
  · intro hself hmem
    have hchar (s : String) : ∀ c ∈ (normalizeText s).toList, c ≠ '\r' := by
      intro c hc
      rw [toList_normalizeText] at hc
      exact ne_of_mem_of_not_mem hc (return_notMem_lineEnds s.toList)
    have hnone := forall_mem_mapTextsForest hchar [t]
    rw [hself] at hnone
    exact hnone '\r' hmem rfl
  · intro hnone
    refine mapTextsForest_eq_self (P := (· ≠ '\r')) (fun s hs => ?_) fun c hc => ?_
    · exact normalizeText_eq_self fun hmem => hs '\r' hmem rfl
    · exact ne_of_mem_of_not_mem hc hnone

/-- A document that no reader may refuse or change: it has only characters that XML allows, and none
    of those where they are taken for others. -/
structure Portable (text : String) : Prop where
  legal : ∀ c ∈ text.toList, isLegal c = true
  data : '\r' ∉ dataIn text
  values : ∀ c ∈ valuesIn text, isBreak c = false

end Xml

namespace Document

open SelectorExplain.Tree SelectorExplain.Xml

section

variable (t : Tree) (layout : Layout)

theorem forall_isLegal_toXml :
    (∀ c ∈ ((ofForest [t]).toXml layout).toList, isLegal c = true) ↔
      (∀ c ∈ t.text.toList, isLegal c = true) ∧ ∀ c ∈ layout.space.toList, isLegal c = true := by
  have hforest := forest_ofForest [t]
  have hchars := forall_mem_toXml (P := (isLegal · = true)) (fun c => isLegal_of_printable)
    (d := ofForest [t]) rfl (by simp [hforest]) layout (by decide)
  simpa [text, hforest] using hchars

theorem return_notMem_dataIn_toXml :
    '\r' ∉ dataIn ((ofForest [t]).toXml layout) ↔ '\r' ∉ t.text.toList := by
  have hforest := forest_ofForest [t]
  have hprintable (c : Char) (hc : Printable c) : c ≠ '\r' := by
    rintro rfl
    exact absurd hc (by decide)
  have hdata := forall_mem_dataIn_toXml hprintable (d := ofForest [t]) rfl (by simp [hforest]) layout
    (by decide)
  simpa [text, hforest, List.forall_mem_ne'] using hdata

theorem forall_isBreak_valuesIn_toXml :
    (∀ c ∈ valuesIn ((ofForest [t]).toXml layout), isBreak c = false) ↔
      ∀ c ∈ layout.space.toList, isBreak c = false :=
  forall_mem_valuesIn_toXml (fun c => isBreak_of_printable) (d := ofForest [t]) rfl
    (by simp [forest_ofForest]) layout

end

/-- **What a conforming reader makes of a document** with one root, in any layout: it refuses the
    document if there is a character that XML does not allow. Otherwise it reads the root, as it is
    except that line ends in texts have become line feeds and that breaks in the namespace have
    become spaces. -/
theorem readDocument_toXml {t : Tree} (h : TextLeaves [t]) (layout : Layout) :
    readDocument ((ofForest [t]).toXml layout) =
      if ((ofForest [t]).toXml layout).toList.all isLegal then
        some (declare (some (normalizeValue layout.space)) (t.mapTexts normalizeText))
      else none := by
  have htext := toList_toXml (d := ofForest [t]) rfl layout
  rw [forest_ofForest] at htext
  have hlines : (normalizeText ((ofForest [t]).toXml layout)).toList =
      render (laidOut { layout with space := normalizeText layout.space }
        [t.mapTexts normalizeText]) := by
    rw [toList_normalizeText, htext, lineEnds_render (readable_laidOut (List.cons_ne_nil _ _) _),
      map_laidOut_normalizeText]
    rfl
  have hscan := scan_render (readable_laidOut (List.cons_ne_nil _ _) _) hlines
  obtain ⟨items, hitems, hroot, helements⟩ := nest_laidOut
    (h.mapTexts normalizeText_eq_empty) { layout with space := normalizeValue layout.space }
  have hmarks : nest [] [] (body ((laidOut { layout with space := normalizeText layout.space }
      [t.mapTexts normalizeText]).map (Mark.mapStrings id spaced))) = some items := by
    rw [map_laidOut_spaced]
    exact hitems
  unfold readDocument
  split
  · simp [hscan, hmarks, hroot, helements]
  · rfl

/-- Only a document that may not be refused or changed is read as it was meant. -/
theorem readDocument_toXml_iff {t : Tree} (h : TextLeaves [t]) (layout : Layout) :
    readDocument ((ofForest [t]).toXml layout) = some (declare (some layout.space) t) ↔
      Portable ((ofForest [t]).toXml layout) := by
  have hread := readDocument_toXml h layout
  constructor
  · intro hmeant
    by_cases hlegal : ((ofForest [t]).toXml layout).toList.all isLegal = true
    · rw [if_pos hlegal, hmeant] at hread
      obtain ⟨hspace, htree⟩ := declare_inj (Option.some.inj hread)
      have hvalue : normalizeValue layout.space = layout.space := (Option.some.inj hspace).symm
      exact ⟨List.all_eq_true.1 hlegal,
        (return_notMem_dataIn_toXml t layout).2 (mapTexts_normalizeText_eq_self.1 htree.symm),
        (forall_isBreak_valuesIn_toXml t layout).2 (normalizeValue_eq_self.1 hvalue)⟩
    · rw [if_neg hlegal, hmeant] at hread
      cases hread
  · rintro ⟨hlegal, hdata, hvalues⟩
    rw [hread, if_pos (List.all_eq_true.2 hlegal),
      normalizeValue_eq_self.2 ((forall_isBreak_valuesIn_toXml t layout).1 hvalues),
      mapTexts_normalizeText_eq_self.2 ((return_notMem_dataIn_toXml t layout).1 hdata)]

end Document

end SelectorExplain
