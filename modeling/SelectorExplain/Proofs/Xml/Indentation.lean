import SelectorExplain.Proofs.Document.Forest
import SelectorExplain.Proofs.Xml.Layout

set_option autoImplicit false

/-! # Indented XML

With an indent of width `n`, the tags of an element that has `k` elements around it stand on lines
of their own behind `n * k` spaces. Only what is written first, and a tag behind character data, go
on with the line. `layOutForest` says this by recursion on the trees: whether there is a line break
in front of a tag depends on what stands directly in front of it there, the start tag, the text or
the children of the same element.

The text is kept in pieces, so that one can say which line breaks and spaces belong to the layout
and not to a text. Without them the indented XML is the compact one
(`textOf_withoutLayout_layOutForest`). -/

namespace SelectorExplain

namespace Xml

open SelectorExplain.Tree

/-! ## Pieces -/

/-- What indented XML consists of: marks, and line breaks and spaces between them. -/
inductive Piece where
  | mark (m : Mark)
  | lineBreak
  | spaces (n : Nat)
  deriving DecidableEq, Repr

/-- The characters of a piece. -/
def Piece.render : Piece → String
  | mark m => m.render
  | lineBreak => "\n"
  | spaces n => "".pushn ' ' n

/-- The text that pieces make up. -/
def textOf (pieces : List Piece) : String := String.join (pieces.map Piece.render)

@[simp] theorem textOf_nil : textOf [] = "" := rfl

@[simp] theorem textOf_cons (p : Piece) (pieces : List Piece) :
    textOf (p :: pieces) = p.render ++ textOf pieces := by
  simp [textOf]

@[simp] theorem textOf_append (a b : List Piece) : textOf (a ++ b) = textOf a ++ textOf b := by
  simp [textOf]

/-! ## The layout of trees -/

/-- What stands in front of a tag: a new line with so many spaces, or nothing. -/
def newLine (fresh : Bool) (indent : Nat) : List Piece :=
  if fresh then [.lineBreak, .spaces indent] else []

mutual

/-- The layout of an element that has `depth` elements around it; `fresh` says that it is neither
    the first thing written nor directly behind character data. -/
def layOut (width depth : Nat) (space : Option String) (fresh : Bool) : Tree → List Piece
  | .node tag operator text children =>
    let content := text.getD ""
    if content = "" ∧ children.isEmpty then
      newLine fresh (width * depth) ++ [.mark (.void tag.label (attributes space operator))]
    else
      newLine fresh (width * depth) ++ [.mark (.opening tag.label (attributes space operator))] ++
        (if content = "" then [] else [.mark (.text content)]) ++
        layOutForest width (depth + 1) none (content = "") children ++
        newLine (content = "" || !children.isEmpty) (width * depth) ++ [.mark (.closing tag.label)]

/-- The layout of several elements side by side: each but the first one stands behind a tag. -/
def layOutForest (width depth : Nat) (space : Option String) (fresh : Bool) :
    List Tree → List Piece
  | [] => []
  | t :: rest => layOut width depth space fresh t ++ layOutForest width depth space true rest

end

/-- The layout of a document whose roots declare a namespace. -/
def layOutDocument (width : Nat) (space : String) (declaration : Bool) (ts : List Tree) :
    List Piece :=
  (if declaration then [.mark .declaration] else []) ++
    layOutForest width 0 (some space) declaration ts

/-! ## Indented marks -/

theorem indented_tag (width : Nat) (fresh : Bool) (depth : Nat) {m : Mark} (h : m.isText = false)
    (rest : List (Nat × Mark)) :
    indented width fresh ((depth, m) :: rest) =
      textOf (newLine fresh (width * depth) ++ [.mark m]) ++ indented width true rest := by
  cases fresh <;> simp [indented, newLine, h, Piece.render, String.append_assoc]

theorem indented_text (width : Nat) (fresh : Bool) (depth : Nat) (content : String)
    (rest : List (Nat × Mark)) :
    indented width fresh ((depth, .text content) :: rest) =
      textOf [.mark (.text content)] ++ indented width false rest := by
  simp [indented, Mark.isText, Piece.render]

/-- Marks of trees are written in the layout of the trees. A mark behind them is written on a new
    line, unless there are no trees and it is not to be. -/
theorem indented_marksOfForest (width : Nat) (ts : List Tree) (depth : Nat)
    (space : Option String) (fresh : Bool) (rest : List (Nat × Mark)) :
    indented width fresh (marksOfForest depth space ts ++ rest) =
      textOf (layOutForest width depth space fresh ts) ++
        indented width (fresh || !ts.isEmpty) rest := by
  induction ts using forestInduction generalizing depth space fresh rest with
  | nil => simp [marksOfForest, layOutForest]
  | cons tag operator text children more ihChildren ihMore =>
      rw [marksOfForest_cons, List.append_assoc, marks_node, layOutForest, layOut]
      split
      · rw [List.singleton_append, indented_tag _ _ _ rfl, ihMore]
        simp [String.append_assoc]
      · rw [List.cons_append, indented_tag _ _ _ rfl, List.append_assoc, List.singleton_append]
        have hclosing (fresh : Bool) :
            indented width fresh ((depth, .closing tag.label) ::
                (marksOfForest depth space more ++ rest)) =
              textOf (newLine fresh (width * depth) ++ [.mark (.closing tag.label)] ++
                layOutForest width depth space true more) ++ indented width true rest := by
          rw [indented_tag _ _ _ rfl, ihMore]
          simp [String.append_assoc]
        unfold contents
        by_cases hcontent : text.getD "" = ""
        · simp [hcontent, ihChildren, hclosing, String.append_assoc]
        · simp [hcontent, indented_text, ihChildren, hclosing, String.append_assoc]

/-! ## Compact marks -/

/-- Pieces without what the layout has put between the marks. The line break behind the declaration
    belongs to it. -/
def withoutLayout : List Piece → List Piece
  | [] => []
  | .mark .declaration :: .lineBreak :: rest =>
    .mark .declaration :: .lineBreak :: withoutLayout rest
  | .mark m :: rest => .mark m :: withoutLayout rest
  | .lineBreak :: rest | .spaces _ :: rest => withoutLayout rest

@[simp] theorem withoutLayout_mark {m : Mark} (h : m ≠ .declaration) (rest : List Piece) :
    withoutLayout (.mark m :: rest) = .mark m :: withoutLayout rest := by
  cases m with
  | declaration => exact absurd rfl h
  | opening | void | closing | text => rfl

@[simp] theorem withoutLayout_newLine (fresh : Bool) (indent : Nat) (rest : List Piece) :
    withoutLayout (newLine fresh indent ++ rest) = withoutLayout rest := by
  cases fresh <;> rfl

/-- Without it there are only the marks of the trees. -/
theorem withoutLayout_layOutForest (width : Nat) (ts : List Tree) (depth : Nat)
    (space : Option String) (fresh : Bool) (rest : List Piece) :
    withoutLayout (layOutForest width depth space fresh ts ++ rest) =
      (marksOfForest depth space ts).map (fun m => .mark m.2) ++ withoutLayout rest := by
  induction ts using forestInduction generalizing depth space fresh rest with
  | nil => rfl
  | cons tag operator text children more ihChildren ihMore =>
      rw [marksOfForest_cons, List.map_append, marks_node, layOutForest, layOut]
      split
      · simp [ihMore]
      · unfold contents
        by_cases hcontent : text.getD "" = ""
        · simp [hcontent, ihChildren, ihMore]
        · simp [hcontent, ihChildren, ihMore]

/-- Marks without a declaration among them are written one behind the other. -/
theorem textOf_marks {marks : List (Nat × Mark)} (h : ∀ m ∈ marks, m.2 ≠ .declaration) :
    textOf (marks.map fun m => .mark m.2) = compact marks := by
  induction marks with
  | nil => rfl
  | cons m marks ih =>
      obtain ⟨depth, m⟩ := m
      rw [List.map_cons, textOf_cons, ih fun x hx => h x (by simp [hx])]
      cases m with
      | declaration => exact absurd rfl (h (depth, .declaration) (by simp))
      | opening | void | closing | text => rfl

theorem textOf_withoutLayout_layOutForest (width : Nat) (ts : List Tree) (depth : Nat)
    (space : Option String) (fresh : Bool) :
    textOf (withoutLayout (layOutForest width depth space fresh ts)) =
      compact (marksOfForest depth space ts) := by
  have hmarks := withoutLayout_layOutForest width ts depth space fresh []
  rw [List.append_nil, withoutLayout, List.append_nil] at hmarks
  rw [hmarks, textOf_marks (ne_declaration_of_mem ts depth space)]

/-! ## Where the layout begins and ends -/

section

variable (width depth : Nat) (space : Option String)

theorem exists_layOutForest_eq_cons {ts : List Tree} (hne : ts ≠ []) :
    ∃ more, layOutForest width depth space true ts =
      .lineBreak :: .spaces (width * depth) :: more := by
  obtain ⟨⟨tag, operator, text, children⟩, rest, rfl⟩ := List.exists_cons_of_ne_nil hne
  rw [layOutForest, layOut]
  split <;> exact ⟨_, rfl⟩

theorem getLast?_textOf_concat (init : List Piece) {m : Mark} {start : String}
    (h : m.render = start ++ ">") : (textOf (init ++ [.mark m])).toList.getLast? = some '>' := by
  simp [Piece.render, h]

theorem render_void (name : String) (attributes : List (String × String)) :
    (Mark.void name attributes).render =
      "<" ++ name ++ attributesText attributes ++ "/" ++ ">" := by
  rw [← String.toList_inj]
  simp [Mark.render]

theorem getLast?_layOut (fresh : Bool) (t : Tree) :
    (textOf (layOut width depth space fresh t)).toList.getLast? = some '>' := by
  obtain ⟨tag, operator, text, children⟩ := t
  rw [layOut]
  split
  · exact getLast?_textOf_concat _ (render_void tag.label _)
  · exact getLast?_textOf_concat _ (m := .closing tag.label) rfl

/-- The last thing written is a tag. -/
theorem getLast?_layOutForest {ts : List Tree} (hne : ts ≠ []) (fresh : Bool) :
    (textOf (layOutForest width depth space fresh ts)).toList.getLast? = some '>' := by
  induction ts generalizing fresh with
  | nil => exact absurd rfl hne
  | cons t rest ih =>
      rw [layOutForest, textOf_append, String.toList_append]
      cases rest with
      | nil => simpa [layOutForest] using getLast?_layOut width depth space fresh t
      | cons next rest => rw [List.getLast?_append, ih (List.cons_ne_nil next rest) true]; rfl

end

end Xml

/-! ## Documents -/

namespace Document

open SelectorExplain.Tree SelectorExplain.Xml

theorem toXml_indented {d : Document} (hne : d.isEmpty = false) (space : String) (width : Nat)
    (declaration : Bool) :
    d.toXml { space, indent := some width, declaration } =
      textOf (layOutDocument width space declaration d.forest) ++ "\n" := by
  have hforest (fresh : Bool) : indented width fresh (marksOfForest 0 (some space) d.forest) =
      textOf (layOutForest width 0 (some space) fresh d.forest) := by
    have hmarks := indented_marksOfForest width d.forest 0 (some space) fresh []
    rw [List.append_nil, indented, String.append_empty] at hmarks
    exact hmarks
  rw [toXml, if_neg (by simp [hne]), xmlMarks, layOutDocument]
  cases declaration with
  | false => simp [hforest]
  | true => simp [indented, hforest, Mark.isText, Piece.render]

theorem toXml_compact {d : Document} (hne : d.isEmpty = false) (hforest : d.forest ≠ [])
    (space : String) (width : Nat) (declaration : Bool) :
    d.toXml { space, indent := none, declaration } =
      textOf (withoutLayout (layOutDocument width space declaration d.forest)) ++ "\n" := by
  have hmarks (fresh : Bool) :=
    textOf_withoutLayout_layOutForest width d.forest 0 (some space) fresh
  rw [toXml, if_neg (by simp [hne]), xmlMarks, layOutDocument]
  cases declaration with
  | false => simp [hmarks]
  | true =>
      -- the first root starts a line of its own, whose line break stays
      obtain ⟨more, hmore⟩ := exists_layOutForest_eq_cons width 0 (some space) hforest
      have hrest := hmarks true
      rw [hmore] at hrest ⊢
      simp [withoutLayout, compact, Piece.render, ← hrest, String.append_assoc]

variable {d : Document}

/-- **Indented XML is the layout of the forest.** A document that is built up below its elements is
    a forest, and its XML is written in the layout of these trees, with one line break behind the
    last tag. What the layout has put between the marks is all that is not in the compact XML, where
    only the declaration has a line of its own. -/
theorem BuiltUp.writeXml_indented (h : d.BuiltUp) (hne : d.isEmpty = false) (space : String)
    (width : Nat) (declaration : Bool) :
    d.Traverses d.roots d.preorder d.forest ∧
      d.writeXml { space, indent := some width, declaration } =
        .ok (textOf (layOutDocument width space declaration d.forest) ++ "\n") ∧
      (textOf (layOutDocument width space declaration d.forest)).toList.getLast? = some '>' ∧
      d.writeXml { space, indent := none, declaration } =
        .ok (textOf (withoutLayout (layOutDocument width space declaration d.forest)) ++ "\n") := by
  have hforest : d.forest ≠ [] := h.isForest.traverses.forest_ne_nil hne
  refine ⟨h.isForest.traverses, ?_, ?_, ?_⟩
  · rw [writeXml_eq_ok, toXml_indented hne]
  · rw [layOutDocument, textOf_append, String.toList_append, List.getLast?_append,
      getLast?_layOutForest width 0 (some space) hforest]
    rfl
  · rw [writeXml_eq_ok, toXml_compact hne hforest space width]

/-- Two roots, of which the first has a text with an element in it, and the second has nothing. -/
def mixed : Document :=
  (((Document.empty.changed (.element none .selector none)).changed (.text (some 0) "a")).changed
    (.element (some 1) .type none)).changed (.element none .id none)

/-- The element behind the text goes on with its line, and the end of the text does not. -/
theorem BuiltUp.writeXml_indented_mixed :
    mixed.BuiltUp ∧ mixed.isEmpty = false ∧
      mixed.writeXml { space := "u", indent := some 2 } =
        .ok ("<?xml version=\"1.0\"?>\n<selector xmlns=\"u\">\n  <text>a<type/>\n  </text>\n" ++
          "</selector>\n<id xmlns=\"u\"/>\n") ∧
      mixed.writeXml { space := "u" } =
        .ok ("<?xml version=\"1.0\"?>\n<selector xmlns=\"u\"><text>a<type/></text>" ++
          "</selector><id xmlns=\"u\"/>\n") := by
  have h : mixed.BuiltUp := by
    refine .changed (.changed (.changed (.changed .empty _ ?_) _ ?_) _ ?_) _ ?_ <;> decide
  obtain ⟨-, hindented, -, hcompact⟩ := BuiltUp.writeXml_indented h rfl "u" 2 true
  refine ⟨h, rfl, hindented.trans (congrArg Except.ok ?_), hcompact.trans (congrArg Except.ok ?_)⟩
  · decide +kernel
  · decide +kernel

end Document

end SelectorExplain
