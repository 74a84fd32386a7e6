import SelectorExplain.Document.Tree

set_option autoImplicit false

/-! # Documents as XML

Printing goes through a list of *marks*: the declaration, start tags, end tags, empty tags and
character data, each tag with the number of elements around it. `Layout` then says how marks are put
on lines. Without an indent everything stands on one line, apart from the declaration, which ends
its own line. With an indent of width `n` each tag starts a line of its own, `n` spaces in for each
element around it, unless it is the first thing written or follows character data: there a line
break would change the text. -/

namespace SelectorExplain

/-- The namespace of explanations. -/
def defaultNamespace : String := "urn:carica-phpcss-explain-2014"

/-- How a document is written as XML. -/
structure Layout where
  /-- The namespace that every root declares. -/
  space : String := defaultNamespace
  /-- The number of spaces for each level; without one everything stands on one line. -/
  indent : Option Nat := none
  /-- Whether an XML declaration comes first. -/
  declaration : Bool := true
  deriving DecidableEq, Repr, Inhabited

/-! ## Escapes -/

namespace Xml

/-- A character of character data, which may not hold markup. -/
def textChar (c : Char) : String :=
  match c with
  | '&' => "&amp;"
  | '<' => "&lt;"
  | '>' => "&gt;"
  | c => c.toString

/-- A character of an attribute value, which stands between double quotes and may not hold quotes
    either. -/
def valueChar (c : Char) : String :=
  match c with
  | '&' => "&amp;"
  | '<' => "&lt;"
  | '>' => "&gt;"
  | '\'' => "&apos;"
  | '"' => "&quot;"
  | c => c.toString

def escapeText (s : String) : String := String.join (s.toList.map textChar)

def escapeValue (s : String) : String := String.join (s.toList.map valueChar)

/-! ## Marks -/

/-- What a document consists of as XML. -/
inductive Mark where
  | declaration
  | opening (name : String) (attributes : List (String × String))
  | void (name : String) (attributes : List (String × String))
  | closing (name : String)
  | text (content : String)
  deriving DecidableEq, Repr

/-- The attributes of a tag, each after a space. -/
def attributesText (attributes : List (String × String)) : String :=
  String.join <| attributes.map fun a => " " ++ a.1 ++ "=\"" ++ escapeValue a.2 ++ "\""

/-- The characters of a mark. -/
def Mark.render : Mark → String
  | declaration => "<?xml version=\"1.0\"?>"
  | opening name attributes => "<" ++ name ++ attributesText attributes ++ ">"
  | void name attributes => "<" ++ name ++ attributesText attributes ++ "/>"
  | closing name => "</" ++ name ++ ">"
  | text content => escapeText content

def Mark.isText : Mark → Bool
  | text _ => true
  | _ => false

/-- The attributes of an element: the namespace, if it declares one, then the operator. -/
def attributes (space : Option String) (operator : Option Operator) : List (String × String) :=
  (space.map ("xmlns", ·)).toList ++ (operator.map fun op => ("operator", op.name)).toList

mutual

/-- The marks of an element that has `depth` elements around it. An element with neither text nor
    children is written as an empty tag. -/
def marks (depth : Nat) (space : Option String) : Tree → List (Nat × Mark)
  | .node tag operator text children =>
    let content := text.getD ""
    if content = "" ∧ children.isEmpty then
      [(depth, .void tag.label (attributes space operator))]
    else
      (depth, .opening tag.label (attributes space operator)) ::
        (if content = "" then [] else [(depth + 1, .text content)]) ++
        marksOfForest (depth + 1) none children ++ [(depth, .closing tag.label)]

/-- The marks of several elements side by side. -/
def marksOfForest (depth : Nat) (space : Option String) : List Tree → List (Nat × Mark)
  | [] => []
  | t :: rest => marks depth space t ++ marksOfForest depth space rest

end

/-! ## Layout -/

/-- Marks on one line; only the declaration ends its line. -/
def compact : List (Nat × Mark) → String
  | [] => ""
  | (_, .declaration) :: rest => Mark.declaration.render ++ "\n" ++ compact rest
  | (_, m) :: rest => m.render ++ compact rest

/-- Marks on lines of their own, `width` spaces for each level. `fresh` says that a tag may be put
    on a new line here: something has been written, and it was no character data. -/
def indented (width : Nat) : (fresh : Bool) → List (Nat × Mark) → String
  | _, [] => ""
  | fresh, (depth, m) :: rest =>
    (if fresh && !m.isText then "\n" ++ "".pushn ' ' (width * depth) else "") ++
      m.render ++ indented width (!m.isText) rest

end Xml

/-- The marks of a document. -/
def Document.xmlMarks (d : Document) (layout : Layout) : List (Nat × Xml.Mark) :=
  (if layout.declaration then [(0, Xml.Mark.declaration)] else []) ++
    Xml.marksOfForest 0 (some layout.space) d.forest

/-- The document as XML, with a line break at its end. An empty document is written as nothing at
    all. -/
def Document.toXml (d : Document) (layout : Layout) : String :=
  if d.isEmpty then ""
  else
    (match layout.indent with
      | none => Xml.compact (d.xmlMarks layout)
      | some width => Xml.indented width false (d.xmlMarks layout)) ++ "\n"

/-! ## Writing

Output is written as bytes, mark by mark, and has to be text in the end. The writer is not told how
many elements there are around a mark. It keeps the indentation of the line that comes next, which
grows behind a start tag and shrinks in front of an end tag. -/

namespace Xml

/-- What has been written. As in `indented`, `fresh` says that a tag may be put on a new line, and
    `indentation` is the number of spaces in front of it there. -/
structure Writer where
  bytes : ByteArray := .empty
  fresh : Bool := false
  indentation : Nat := 0

/-- The indentation of a line that starts with the mark. -/
def Writer.lineStart (w : Writer) (width : Nat) : Mark → Nat
  | .closing _ => w.indentation - width
  | _ => w.indentation

/-- The indentation behind a mark whose line has one of `start`. -/
def Mark.lineAfter (width start : Nat) : Mark → Nat
  | opening .. => start + width
  | _ => start

/-- Writes a mark with the space around it. -/
def Writer.write (indent : Option Nat) (w : Writer) (m : Mark) : Writer :=
  match indent with
  | none =>
    let text := m.render ++ (if m = .declaration then "\n" else "")
    { w with bytes := w.bytes ++ text.toByteArray, fresh := !m.isText }
  | some width =>
    let start := w.lineStart width m
    let text := (if w.fresh && !m.isText then "\n" ++ "".pushn ' ' start else "") ++ m.render
    { bytes := w.bytes ++ text.toByteArray, fresh := !m.isText,
      indentation := m.lineAfter width start }

end Xml

/-- Writes the document as XML, or says why the bytes are no text. -/
def Document.writeXml (d : Document) (layout : Layout) : Except String String :=
  if d.isEmpty then .ok ""
  else
    let written := ((d.xmlMarks layout).map (·.2)).foldl (Xml.Writer.write layout.indent) {}
    match String.fromUTF8? (written.bytes ++ "\n".toByteArray) with
    | some text => .ok text
    | none => .error "invalid utf-8"

namespace Xml

theorem bytes_foldl_write_none (marks : List (Nat × Mark)) (w : Writer) :
    ((marks.map (·.2)).foldl (Writer.write none) w).bytes =
      w.bytes ++ (compact marks).toByteArray := by
  induction marks generalizing w with
  | nil => simp [compact]
  | cons m rest ih =>
      obtain ⟨depth, m⟩ := m
      rw [List.map_cons, List.foldl_cons, ih]
      cases m <;> simp [Writer.write, compact, ByteArray.append_assoc]

/-- Each tag says how many elements there are around it, given how many are open at the start. -/
inductive Leveled : (level : Nat) → List (Nat × Mark) → Prop
  | nil {level : Nat} : Leveled level []
  | declaration {level : Nat} {rest : List (Nat × Mark)} (h : Leveled level rest) :
      Leveled level ((level, .declaration) :: rest)
  | opening {level : Nat} {name : String} {attributes : List (String × String)}
      {rest : List (Nat × Mark)} (h : Leveled (level + 1) rest) :
      Leveled level ((level, .opening name attributes) :: rest)
  | void {level : Nat} {name : String} {attributes : List (String × String)}
      {rest : List (Nat × Mark)} (h : Leveled level rest) :
      Leveled level ((level, .void name attributes) :: rest)
  | closing {level : Nat} {name : String} {rest : List (Nat × Mark)} (h : Leveled level rest) :
      Leveled (level + 1) ((level, .closing name) :: rest)
  | text {level depth : Nat} {content : String} {rest : List (Nat × Mark)}
      (h : Leveled level rest) : Leveled level ((depth, .text content) :: rest)

mutual

/-- Behind an element as many are open as in front of it. -/
theorem Leveled.marks {depth : Nat} {rest : List (Nat × Mark)} (h : Leveled depth rest)
    (space : Option String) (t : Tree) : Leveled depth (Xml.marks depth space t ++ rest) := by
  obtain ⟨tag, operator, text, children⟩ := t
  unfold Xml.marks
  dsimp only
  split
  · exact .void h
  · have hclosing : Leveled (depth + 1) ((depth, .closing tag.label) :: rest) := .closing h
    have hbelow := hclosing.marksOfForest none children
    split
    · simpa using Leveled.opening hbelow
    · simpa using Leveled.opening (Leveled.text hbelow)

theorem Leveled.marksOfForest {depth : Nat} {rest : List (Nat × Mark)} (h : Leveled depth rest)
    (space : Option String) (ts : List Tree) :
    Leveled depth (Xml.marksOfForest depth space ts ++ rest) := by
  match ts with
  | [] => exact h
  | t :: more =>
      rw [Xml.marksOfForest, List.append_assoc]
      exact (h.marksOfForest space more).marks space t

end

/-- A tag is written at its level if the writer's indentation, less what an end tag takes off, is
    that of the level. -/
theorem Writer.bytes_write_some {width depth : Nat} (w : Writer) (m : Mark)
    (rest : List (Nat × Mark)) (h : m.isText = false → w.lineStart width m = width * depth) :
    (w.write (some width) m).bytes ++ (indented width (!m.isText) rest).toByteArray =
      w.bytes ++ (indented width w.fresh ((depth, m) :: rest)).toByteArray := by
  cases htext : m.isText with
  | false => simp [write, indented, htext, h htext, ByteArray.append_assoc]
  | true => simp [write, indented, htext, ByteArray.append_assoc]

/-- Marks are written at their levels if the writer's indentation is that of the first one. -/
theorem bytes_foldl_write_some {level : Nat} {marks : List (Nat × Mark)} (h : Leveled level marks)
    (width : Nat) {w : Writer} (hw : w.indentation = width * level) :
    ((marks.map (·.2)).foldl (Writer.write (some width)) w).bytes =
      w.bytes ++ (indented width w.fresh marks).toByteArray := by
  induction h generalizing w with
  | nil => simp [indented]
  | @declaration level rest h ih =>
      have hrest := ih (w := w.write (some width) .declaration) hw
      exact hrest.trans (w.bytes_write_some .declaration rest fun _ => hw)
  | @opening level name attributes rest h ih =>
      have hgrown : w.indentation + width = width * (level + 1) := by rw [hw, Nat.mul_succ]
      have hrest := ih (w := w.write (some width) (.opening name attributes)) hgrown
      exact hrest.trans (w.bytes_write_some (.opening name attributes) rest fun _ => hw)
  | @void level name attributes rest h ih =>
      have hrest := ih (w := w.write (some width) (.void name attributes)) hw
      exact hrest.trans (w.bytes_write_some (.void name attributes) rest fun _ => hw)
  | @closing level name rest h ih =>
      have hshrunk : w.indentation - width = width * level := by
        rw [hw, Nat.mul_succ, Nat.add_sub_cancel]
      have hrest := ih (w := w.write (some width) (.closing name)) hshrunk
      exact hrest.trans (w.bytes_write_some (.closing name) rest fun _ => hshrunk)
  | @text level depth content rest h ih =>
      have hrest := ih (w := w.write (some width) (.text content)) hw
      exact hrest.trans (w.bytes_write_some (.text content) rest nofun)

end Xml

theorem Document.leveled_xmlMarks (d : Document) (layout : Layout) :
    Xml.Leveled 0 (d.xmlMarks layout) := by
  have hnil : Xml.Leveled 0 [] := .nil
  have hforest := hnil.marksOfForest (some layout.space) d.forest
  rw [List.append_nil] at hforest
  unfold xmlMarks
  split
  · exact .declaration hforest
  · exact hforest

theorem fromUTF8?_toByteArray (s : String) : String.fromUTF8? s.toByteArray = some s := by
  rw [String.fromUTF8?, dif_pos s.isValidUTF8]
  rfl

/-- What is written is always text: that of the marks in their layout. -/
theorem Document.writeXml_eq_ok (d : Document) (layout : Layout) :
    d.writeXml layout = .ok (d.toXml layout) := by
  unfold writeXml toXml
  split
  · rfl
  · have hbytes :
        (((d.xmlMarks layout).map (·.2)).foldl (Xml.Writer.write layout.indent) {}).bytes =
        (match layout.indent with
          | none => Xml.compact (d.xmlMarks layout)
          | some width => Xml.indented width false (d.xmlMarks layout)).toByteArray := by
      cases layout.indent with
      | none => rw [Xml.bytes_foldl_write_none, ByteArray.empty_append]
      | some width =>
          rw [Xml.bytes_foldl_write_some (d.leveled_xmlMarks layout) width (Nat.mul_zero _).symm,
            ByteArray.empty_append]
    dsimp only
    rw [hbytes, ← String.toByteArray_append, fromUTF8?_toByteArray]

end SelectorExplain
