import SelectorExplain.Proofs.Document.TextLeaves
import SelectorExplain.Proofs.Xml.Scan

set_option autoImplicit false

/-! # Reading a document back

Whatever the layout, the XML of a document is a list of marks, with character data for the line
breaks and spaces between tags (`laidOut`, `toList_toXml`). These marks can be told apart, so that a
scan gives them back. None of the spaces gets into a text element, so that what is nested inside the
tags are the trees of the document (`shows_laidOut`). -/

namespace SelectorExplain

namespace Xml

open SelectorExplain.Tree

/-! ## Marks with space between them -/

/-- The space in front of a mark. -/
def gap (indent : Option Nat) (fresh : Bool) (depth : Nat) (m : Mark) : List Mark :=
  match indent with
  | none => []
  | some width => if fresh && !m.isText then [.text ("\n" ++ "".pushn ' ' (width * depth))] else []

/-- Marks with the space between them. As in `indented`, `fresh` says that a tag may be put on a new
    line here. -/
def spread (indent : Option Nat) : (fresh : Bool) → List (Nat × Mark) → List Mark
  | _, [] => []
  | fresh, (depth, m) :: rest =>
    gap indent fresh depth m ++ m :: spread indent (!m.isText) rest

/-- The declaration of a document, which ends its line even if no other mark does. -/
def declarationMarks (layout : Layout) : List Mark :=
  if layout.declaration then
    .declaration :: (if layout.indent.isNone then [.text "\n"] else [])
  else []

/-- All marks of a document. -/
def laidOut (layout : Layout) (ts : List Tree) : List Mark :=
  declarationMarks layout ++ spread layout.indent layout.declaration
    (marksOfForest 0 (some layout.space) ts ++ [(0, .text "\n")])

/-! ## Rendering -/

theorem escapeText_eq_self {s : String} (h : ∀ c ∈ s.toList, textChar c = c.toString) :
    escapeText s = s := by
  have hjoin : ∀ chars : List Char, (∀ c ∈ chars, textChar c = c.toString) →
      (chars.map textChar).flatMap String.toList = chars := by
    intro chars hchars
    induction chars with
    | nil => rfl
    | cons c chars ih =>
        rw [List.map_cons, List.flatMap_cons, hchars c (by simp),
          ih fun x hx => hchars x (by simp [hx])]
        simp
  rw [← String.toList_inj, escapeText, String.toList_join, hjoin s.toList h]

theorem mem_pushn {c : Char} {n : Nat} (h : c ∈ ("".pushn ' ' n).toList) : c = ' ' := by
  rw [String.pushn_eq_repeat_push] at h
  induction n with
  | zero => simp [Nat.repeat] at h
  | succ n ih =>
      rw [Nat.repeat, String.toList_push, List.mem_append, List.mem_singleton] at h
      exact h.elim ih id

/-- A line break with the indentation behind it. -/
theorem mem_line {c : Char} {n : Nat} (h : c ∈ ("\n" ++ "".pushn ' ' n).toList) :
    c = '\n' ∨ c = ' ' := by
  rw [String.toList_append, List.mem_append] at h
  exact h.imp List.mem_singleton.1 mem_pushn

theorem escapeText_space (n : Nat) :
    escapeText ("\n" ++ "".pushn ' ' n) = "\n" ++ "".pushn ' ' n := by
  refine escapeText_eq_self fun c hc => ?_
  rcases mem_line hc with rfl | rfl
  · rfl
  · rfl

theorem render_cons (m : Mark) (rest : List Mark) :
    render (m :: rest) = m.render.toList ++ render rest := by
  simp [render]

theorem render_append (a b : List Mark) : render (a ++ b) = render a ++ render b := by
  simp [render]

theorem toList_indented (width : Nat) (fresh : Bool) (marks : List (Nat × Mark)) :
    (indented width fresh marks).toList = render (spread (some width) fresh marks) := by
  induction marks generalizing fresh with
  | nil => rfl
  | cons m rest ih =>
      obtain ⟨depth, m⟩ := m
      rw [indented, spread, String.toList_append, String.toList_append, ih, gap, render_append,
        render_cons, List.append_assoc]
      congr 1
      split
      · simp [render, Mark.render, escapeText_space]
      · rfl

theorem toList_compact {marks : List (Nat × Mark)} (h : ∀ m ∈ marks, m.2 ≠ .declaration)
    (fresh : Bool) : (compact marks).toList = render (spread none fresh marks) := by
  induction marks generalizing fresh with
  | nil => rfl
  | cons m rest ih =>
      obtain ⟨depth, m⟩ := m
      have hm : m ≠ .declaration := h (depth, m) (by simp)
      rw [spread, gap, List.nil_append, render_cons, ← ih fun x hx => h x (by simp [hx])]
      cases m with
      | declaration => exact absurd rfl hm
      | text | opening | void | closing =>
          rw [compact, String.toList_append]
          simp

/-! ## Marks of trees -/

theorem marksOfForest_cons (depth : Nat) (space : Option String) (t : Tree) (rest : List Tree) :
    marksOfForest depth space (t :: rest) =
      marks depth space t ++ marksOfForest depth space rest := rfl

/-- The marks inside an element: its own text, then what is below it. -/
def contents (depth : Nat) (content : String) (children : List Tree) : List (Nat × Mark) :=
  (if content = "" then [] else [(depth, .text content)]) ++ marksOfForest depth none children

/-- An element is an empty tag, or what is inside it between a start tag and an end tag. -/
theorem marks_node (depth : Nat) (space : Option String) (tag : Tag) (operator : Option Operator)
    (text : Option String) (children : List Tree) :
    marks depth space (.node tag operator text children) =
      if text.getD "" = "" ∧ children.isEmpty then
        [(depth, .void tag.label (attributes space operator))]
      else (depth, .opening tag.label (attributes space operator)) ::
        (contents (depth + 1) (text.getD "") children ++ [(depth, .closing tag.label)]) := by
  simp [marks, contents]

/-- The marks of a text. -/
theorem marks_ofText (depth : Nat) (space : Option String) {content : String}
    (hne : content ≠ "") :
    marks depth space (.ofText content) =
      [(depth, .opening Tag.text.label (attributes space none)), (depth + 1, .text content),
        (depth, .closing Tag.text.label)] := by
  simp [Tree.ofText, marks_node, contents, marksOfForest, hne]

/-- The marks of an element without text. -/
theorem marks_element (depth : Nat) (space : Option String) (tag : Tag)
    (operator : Option Operator) (children : List Tree) :
    marks depth space (.node tag operator none children) =
      if children.isEmpty then [(depth, .void tag.label (attributes space operator))]
      else (depth, .opening tag.label (attributes space operator)) ::
        (marksOfForest (depth + 1) none children ++ [(depth, .closing tag.label)]) := by
  simp [marks_node, contents]

/-- The first mark of a tree is a tag. -/
theorem exists_marks_eq_cons (depth : Nat) (space : Option String) (t : Tree) :
    ∃ m more, marks depth space t = (depth, m) :: more ∧ m.isText = false := by
  obtain ⟨tag, operator, text, children⟩ := t
  rw [marks_node]
  split
  · exact ⟨_, _, rfl, rfl⟩
  · exact ⟨_, _, rfl, rfl⟩

/-- What comes first is a tag, if a tag comes behind. -/
theorem starts_marksOfForest (depth : Nat) (space : Option String) (ts : List Tree)
    {rest : List Mark} (hrest : ∀ m ∈ rest.head?, m.isText = false) :
    ∀ m ∈ ((marksOfForest depth space ts).map (·.2) ++ rest).head?, m.isText = false := by
  cases ts with
  | nil => exact hrest
  | cons t ts =>
      obtain ⟨first, more, hfirst, htag⟩ := exists_marks_eq_cons depth space t
      rw [marksOfForest_cons, hfirst]
      intro m hm
      cases hm
      exact htag

theorem isName_label (tag : Tag) : IsName tag.label := by
  cases tag <;> decide

theorem isName_attributes (space : Option String) (operator : Option Operator) :
    ∀ a ∈ attributes space operator, IsName a.1 := by
  intro a ha
  rw [attributes, List.mem_append, Option.mem_toList, Option.mem_toList,
    Option.map_eq_some_iff, Option.map_eq_some_iff] at ha
  rcases ha with ⟨_, -, rfl⟩ | ⟨_, -, rfl⟩
  · exact (by decide : IsName "xmlns")
  · exact (by decide : IsName "operator")

/-- The marks of trees can be told apart, whatever readable marks come behind. -/
theorem Readable.marksOfForest (ts : List Tree) {rest : List Mark} (hrest : Readable rest)
    (depth : Nat) (space : Option String) :
    Readable ((Xml.marksOfForest depth space ts).map (·.2) ++ rest) := by
  induction ts using forestInduction generalizing rest depth space with
  | nil => exact hrest
  | cons tag operator text children more ihChildren ihMore =>
      have hbehind := ihMore hrest depth space
      have hnames : (Mark.opening tag.label (attributes space operator)).HasNames :=
        ⟨isName_label _, isName_attributes _ _⟩
      rw [marksOfForest_cons, List.map_append, List.append_assoc, marks_node]
      generalize List.map (·.2) (Xml.marksOfForest depth space more) ++ rest = behind at hbehind ⊢
      split
      · exact .tag rfl hnames hbehind
      · have hclosing : Readable (.closing tag.label :: behind) :=
          .tag rfl (isName_label _) hbehind
        have hbelow := ihChildren hclosing (depth + 1) none
        unfold contents
        by_cases hcontent : text.getD "" = ""
        · simpa [hcontent] using Readable.tag rfl hnames hbelow
        · -- the element's own text stands between its start tag and another tag
          have hnext := starts_marksOfForest (depth + 1) none children
            (show ∀ m ∈ (Mark.closing tag.label :: behind).head?, m.isText = false by
              simp [Mark.isText])
          simpa [hcontent] using Readable.tag rfl hnames (.text hcontent hnext hbelow)

/-- No space is put in front of the first mark, or behind character data. -/
@[simp] theorem gap_false (indent : Option Nat) (depth : Nat) (m : Mark) :
    gap indent false depth m = [] := by
  cases indent <;> simp [gap]

/-- No space is put in front of character data. -/
@[simp] theorem gap_text (indent : Option Nat) (fresh : Bool) (depth : Nat) (content : String) :
    gap indent fresh depth (.text content) = [] := by
  cases indent <;> simp [gap, Mark.isText]

/-- On one line there is no space between marks. -/
theorem spread_none (fresh : Bool) (marks : List (Nat × Mark)) :
    spread none fresh marks = marks.map (·.2) := by
  induction marks generalizing fresh with
  | nil => rfl
  | cons m rest ih =>
      obtain ⟨depth, m⟩ := m
      rw [spread, ih]
      rfl

/-- Space is put between tags only, so that the marks can still be told apart. -/
theorem Readable.spread {marks : List (Nat × Mark)} (h : Readable (marks.map (·.2)))
    (indent : Option Nat) (fresh : Bool) : Readable (spread indent fresh marks) := by
  induction marks generalizing fresh with
  | nil => exact .nil
  | cons m rest ih =>
      obtain ⟨depth, m⟩ := m
      rw [Xml.spread]
      cases h with
      | tag hm hnames hrest =>
          have htag := Readable.tag hm hnames (ih hrest (!m.isText))
          cases indent with
          | none => exact htag
          | some width =>
              rw [gap]
              split
              · refine .text (fun hempty => ?_) (by simpa using hm) htag
                simpa using congrArg String.toList hempty
              · exact htag
      | @text content _ hne hnext hrest =>
          rw [gap_text]
          refine .text hne ?_ (ih hrest _)
          cases rest with
          | nil => nofun
          | cons m rest => simpa [Xml.spread, Mark.isText] using hnext m.2 rfl

/-! ## Nesting -/

/-- Marks that become items, wherever they stand. -/
def Nests (marks : List Mark) (items : List Item) : Prop :=
  ∀ stack inside rest, nest stack inside (marks ++ rest) = nest stack (inside ++ items) rest

/-- Marks that stand for elements, wherever they stand. -/
def Shows (marks : List Mark) (ts : List Declared) : Prop :=
  ∃ items, Nests marks items ∧ elements items = some ts

theorem elements_append {a b : List Item} {ts us : List Declared} (ha : elements a = some ts)
    (hb : elements b = some us) : elements (a ++ b) = some (ts ++ us) := by
  induction a generalizing ts with
  | nil =>
      cases ha
      exact hb
  | cons item a ih =>
      cases hitem : element item with
      | none => simp [elements, hitem] at ha
      | some first =>
          cases hmore : elements a with
          | none => simp [elements, hitem, hmore] at ha
          | some more =>
              have hts : first ++ more = ts := by simpa [elements, hitem, hmore] using ha
              simp [elements, hitem, ih hmore, ← hts]

theorem shows_nil : Shows [] [] := ⟨[], fun stack inside rest => by simp, rfl⟩

/-- Character data on its own stands for nothing. -/
theorem shows_text (content : String) : Shows [.text content] [] :=
  ⟨[.data content], fun stack inside rest => by simp [nest], rfl⟩

theorem Shows.append {a b : List Mark} {ts us : List Declared} (ha : Shows a ts)
    (hb : Shows b us) : Shows (a ++ b) (ts ++ us) := by
  obtain ⟨items, hitems, hts⟩ := ha
  obtain ⟨more, hmore, hus⟩ := hb
  refine ⟨items ++ more, fun stack inside rest => ?_, elements_append hts hus⟩
  rw [List.append_assoc, hitems, hmore, List.append_assoc]

theorem shows_gap (indent : Option Nat) (fresh : Bool) (depth : Nat) (m : Mark) :
    Shows (gap indent fresh depth m) [] := by
  unfold gap
  split
  · exact shows_nil
  · split
    · exact shows_text _
    · exact shows_nil

theorem lookup_attributes (space : Option String) (operator : Option Operator) :
    (attributes space operator).lookup "xmlns" = space := by
  cases space <;> cases operator <;> rfl

theorem operator?_attributes (space : Option String) (operator : Option Operator) :
    operator? (attributes space operator) = some operator := by
  cases space <;> cases operator with
  | none => rfl
  | some op => cases op <;> rfl

/-- An empty tag stands for an element without children. -/
theorem shows_void (space : Option String) {tag : Tag} (htag : tag ≠ .text)
    (operator : Option Operator) :
    Shows [.void tag.label (attributes space operator)] [.node space tag operator none []] := by
  refine ⟨[.element tag.label (attributes space operator) []],
    fun stack inside rest => by simp [nest], ?_⟩
  simp [elements, element, Tag.ofLabel?_label, operator?_attributes, lookup_attributes, htag]

/-- Tags around what stands for the children of an element. -/
theorem Shows.element {inside : List Mark} {children : List Declared} (h : Shows inside children)
    (space : Option String) {tag : Tag} (htag : tag ≠ .text) (operator : Option Operator) :
    Shows (.opening tag.label (attributes space operator) :: (inside ++ [.closing tag.label]))
      [.node space tag operator none children] := by
  obtain ⟨items, hitems, hchildren⟩ := h
  refine ⟨[.element tag.label (attributes space operator) items],
    fun stack before rest => ?_, ?_⟩
  · rw [List.cons_append, List.append_assoc, nest, hitems]
    simp [nest]
  · simp [elements, Xml.element, Tag.ofLabel?_label, operator?_attributes, lookup_attributes, htag,
      hchildren]

/-- Tags around the character data of a text. -/
theorem shows_ofText (space : Option String) (content : String) :
    Shows [.opening Tag.text.label (attributes space none), .text content,
      .closing Tag.text.label] [.node space .text none (some content) []] := by
  refine ⟨[.element Tag.text.label (attributes space none) [.data content]],
    fun stack before rest => by simp [nest], ?_⟩
  simp [elements, element, Tag.ofLabel?_label, operator?_attributes, lookup_attributes, dataOf]

/-! ## Documents -/

/-- Whether a tag may be put on a new line behind marks. -/
def freshAfter (fresh : Bool) (marks : List (Nat × Mark)) : Bool :=
  marks.foldl (fun _ m => !m.2.isText) fresh

theorem spread_append (indent : Option Nat) (fresh : Bool) (a b : List (Nat × Mark)) :
    spread indent fresh (a ++ b) =
      spread indent fresh a ++ spread indent (freshAfter fresh a) b := by
  induction a generalizing fresh with
  | nil => rfl
  | cons m a ih =>
      obtain ⟨depth, m⟩ := m
      rw [List.cons_append, spread, spread, ih, List.append_assoc, List.cons_append]
      rfl

/-- Behind an element a tag may be put on a new line. -/
theorem freshAfter_marks (fresh : Bool) (depth : Nat) (space : Option String) (t : Tree) :
    freshAfter fresh (marks depth space t) = true := by
  obtain ⟨tag, operator, text, children⟩ := t
  rw [marks]
  split
  · rfl
  · simp [freshAfter, Mark.isText]

/-- Between the start and the end of an element a tag may be put on a new line. -/
theorem freshAfter_marksOfForest (depth : Nat) (space : Option String) (ts : List Tree) :
    freshAfter true (marksOfForest depth space ts) = true := by
  induction ts with
  | nil => rfl
  | cons t rest ih =>
      have ht := freshAfter_marks true depth space t
      rw [freshAfter] at ht ih ⊢
      rw [marksOfForest_cons, List.foldl_append, ht, ih]

/-- **The marks of trees stand for the trees.** Whatever the layout, the space between tags stands
    for nothing, and no space gets into a text. -/
theorem shows_marksOfForest {ts : List Tree} (h : TextLeaves ts) (indent : Option Nat)
    (fresh : Bool) (depth : Nat) (space : Option String) :
    Shows (spread indent fresh (marksOfForest depth space ts)) (declareForest space ts) := by
  induction h generalizing fresh depth space with
  | nil => exact shows_nil
  | @text content rest hne hrest ih =>
      -- inside a text no mark is fresh, so no space is put there
      rw [marksOfForest_cons, spread_append]
      show Shows _ ([_] ++ declareForest space rest)
      refine Shows.append ?_ (ih _ depth space)
      rw [marks_ofText depth space hne]
      have hgap := shows_gap indent fresh depth (.opening Tag.text.label (attributes space none))
      have htext := hgap.append (shows_ofText space content)
      simpa [spread, Mark.isText, declare, Tree.ofText, declareForest] using htext
  | @element tag operator children rest htag hchildren hrest ihChildren ih =>
      rw [marksOfForest_cons, spread_append]
      show Shows _ ([_] ++ declareForest space rest)
      refine Shows.append ?_ (ih _ depth space)
      rw [marks_element]
      split
      · next hempty =>
          have hgap := shows_gap indent fresh depth (.void tag.label (attributes space operator))
          have hvoid := hgap.append (shows_void space htag operator)
          rw [List.isEmpty_iff] at hempty
          simpa [spread, declare, declareForest, hempty] using hvoid
      · -- here there may be space in front of the start tag and of the end tag
        have hgap := shows_gap indent fresh depth (.opening tag.label (attributes space operator))
        have hinside := (ihChildren true (depth + 1) none).append
          (shows_gap indent true depth (.closing tag.label))
        have helement := hgap.append (hinside.element space htag operator)
        rw [spread, spread_append]
        simpa [spread, Mark.isText, freshAfter_marksOfForest, declare] using helement

/-- The marks of a document can be told apart. -/
theorem readable_laidOut {ts : List Tree} (hne : ts ≠ []) (layout : Layout) :
    Readable (laidOut layout ts) := by
  have hend : Readable [.text "\n"] := .text (by decide) nofun .nil
  have hmarks : Readable (List.map (fun m : Nat × Mark => m.2)
      (marksOfForest 0 (some layout.space) ts ++ [(0, .text "\n")])) := by
    simpa using Readable.marksOfForest ts hend 0 (some layout.space)
  have hspread := hmarks.spread layout.indent layout.declaration
  rw [laidOut, declarationMarks]
  split
  · refine .tag rfl trivial ?_
    split
    · next hindent =>
        refine .text (by decide) ?_ hspread
        obtain ⟨t, rest, rfl⟩ := List.exists_cons_of_ne_nil hne
        obtain ⟨m, more, hfirst, hm⟩ := exists_marks_eq_cons 0 (some layout.space) t
        rw [Option.isNone_iff_eq_none] at hindent
        rw [marksOfForest_cons, hfirst, hindent]
        simpa [spread, gap] using hm
    · exact hspread
  · exact hspread

/-- Marks that stand for elements come without a declaration. -/
theorem Shows.body_eq {marks : List Mark} {ts : List Declared} (h : Shows marks ts) :
    body marks = marks := by
  obtain ⟨items, hitems, -⟩ := h
  unfold body
  split
  · next rest =>
      have hnest := hitems [] [] []
      simp [nest] at hnest
  · rfl

/-- The marks of a document behind its declaration. -/
theorem shows_spread {ts : List Tree} (h : TextLeaves ts) (layout : Layout) :
    Shows (spread layout.indent layout.declaration
      (marksOfForest 0 (some layout.space) ts ++ [(0, .text "\n")]))
      (declareForest (some layout.space) ts) := by
  rw [spread_append]
  have hmarks := shows_marksOfForest h layout.indent layout.declaration 0 (some layout.space)
  simpa [spread] using hmarks.append (shows_text "\n")

/-- The marks of a document stand for its trees, each of whose roots declares the namespace. -/
theorem shows_laidOut {ts : List Tree} (h : TextLeaves ts) (layout : Layout) :
    Shows (body (laidOut layout ts)) (declareForest (some layout.space) ts) := by
  have hspread := shows_spread h layout
  rw [laidOut, declarationMarks]
  split
  · have hline : Shows (if layout.indent.isNone then [.text "\n"] else []) [] := by
      split
      · exact shows_text "\n"
      · exact shows_nil
    exact hline.append hspread
  · rw [List.nil_append, hspread.body_eq]
    exact hspread

/-- Only tags and character data make a tree. -/
theorem ne_declaration_of_mem (ts : List Tree) (depth : Nat) (space : Option String) :
    ∀ m ∈ marksOfForest depth space ts, m.2 ≠ .declaration := by
  induction ts using forestInduction generalizing depth space with
  | nil => nofun
  | cons tag operator text children rest ihChildren ihRest =>
      rw [marksOfForest_cons, List.forall_mem_append, marks_node]
      refine ⟨?_, ihRest depth space⟩
      split
      · simp
      · have hbelow := ihChildren (depth + 1) none
        unfold contents
        by_cases hcontent : text.getD "" = ""
        · simpa [hcontent, List.forall_mem_append, or_imp, forall_and] using hbelow
        · simpa [hcontent, List.forall_mem_append, or_imp, forall_and] using hbelow

end Xml

namespace Document

open SelectorExplain.Tree SelectorExplain.Xml

/-- The XML of a document consists of its marks. -/
theorem toList_toXml {d : Document} (hne : d.isEmpty = false) (layout : Layout) :
    (d.toXml layout).toList = render (laidOut layout d.forest) := by
  have hend : render [.text "\n"] = "\n".toList := by decide
  have hmarks := ne_declaration_of_mem d.forest 0 (some layout.space)
  obtain ⟨space, indent, declaration⟩ := layout
  rw [toXml, if_neg (by simp [hne]), String.toList_append, laidOut, spread_append,
    ← List.append_assoc, render_append, ← hend]
  congr 1
  · cases indent with
    | none =>
        cases declaration with
        | false => exact toList_compact hmarks false
        | true =>
            rw [xmlMarks, if_pos rfl, List.singleton_append, compact, String.toList_append,
              String.toList_append, toList_compact hmarks true, List.append_assoc, ← hend]
            rfl
    | some width =>
        cases declaration with
        | false => exact toList_indented width false _
        | true => exact toList_indented width false ((0, .declaration) :: _)
  · simp [spread]

/-- **A document is read back from its XML** as it is, with the namespace on its roots. -/
theorem read_toXml {ts : List Tree} (h : TextLeaves ts) (layout : Layout) :
    ∃ marks, scan ((ofForest ts).toXml layout) = some marks ∧ Balanced (body marks) ∧
      Xml.read ((ofForest ts).toXml layout) = some (declareForest (some layout.space) ts) := by
  cases ts with
  | nil => exact ⟨[], rfl, .nil, rfl⟩
  | cons t rest =>
      have hforest : (ofForest (t :: rest)).forest = t :: rest := forest_ofForest _
      have htext := toList_toXml (d := ofForest (t :: rest)) rfl layout
      rw [hforest] at htext
      have hscan := scan_render (readable_laidOut (List.cons_ne_nil t rest) layout) htext
      obtain ⟨items, hitems, helements⟩ := shows_laidOut h layout
      have hnest : nest [] [] (body (laidOut layout (t :: rest))) = some items := by
        simpa [nest] using hitems [] [] []
      refine ⟨_, hscan, balanced_of_nest hnest, ?_⟩
      simp [Xml.read, hscan, hnest, helements]

end Document

end SelectorExplain
