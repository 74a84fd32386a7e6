import SelectorExplain.Proofs.Xml.Layout

set_option autoImplicit false

/-! # Other texts in a document

Putting other texts and another namespace into the marks of a document gives the marks of another
document, with other texts in the same places (`map_laidOut`). Empty texts have to stay empty, since
elements without text are written in another form, and so have the line breaks of the layout and the
words for operators. -/

namespace SelectorExplain

/-! ## Trees -/

namespace Tree

mutual

/-- A tree with other texts. -/
def mapTexts (f : String → String) : Tree → Tree
  | node tag operator text children => node tag operator (text.map f) (mapTextsForest f children)

/-- Trees with other texts. -/
def mapTextsForest (f : String → String) : List Tree → List Tree
  | [] => []
  | t :: rest => t.mapTexts f :: mapTextsForest f rest

end

variable {f : String → String}

@[simp] theorem mapTextsForest_nil : mapTextsForest f [] = [] := rfl

@[simp] theorem mapTextsForest_cons (tag : Tag) (operator : Option Operator) (text : Option String)
    (children rest : List Tree) :
    mapTextsForest f (.node tag operator text children :: rest) =
      .node tag operator (text.map f) (mapTextsForest f children) :: mapTextsForest f rest := rfl

@[simp] theorem isEmpty_mapTextsForest (ts : List Tree) :
    (mapTextsForest f ts).isEmpty = ts.isEmpty := by
  cases ts <;> rfl

theorem TextLeaves.mapTexts (hf : ∀ s, f s = "" ↔ s = "") {ts : List Tree} (h : TextLeaves ts) :
    TextLeaves (mapTextsForest f ts) := by
  induction h with
  | nil => exact .nil
  | text hne hrest ih => exact .text (fun hempty => hne ((hf _).1 hempty)) ih
  | element htag hchildren hrest ihChildren ih => exact .element htag ihChildren ih

/-- Texts of certain characters that the function leaves alone are left alone. -/
theorem mapTextsForest_eq_self {P : Char → Prop} (hf : ∀ s, (∀ c ∈ s.toList, P c) → f s = s)
    {ts : List Tree} (h : ∀ c ∈ (textOfForest ts).toList, P c) : mapTextsForest f ts = ts := by
  induction ts using forestInduction with
  | nil => rfl
  | cons tag operator text children rest ihChildren ihRest =>
      rw [textOfForest_cons, Tree.text, String.toList_append, String.toList_append,
        List.forall_mem_append, List.forall_mem_append] at h
      have htext : text.map f = text := by
        cases text with
        | none => rfl
        | some s => exact congrArg some (hf s h.1.1)
      rw [mapTextsForest_cons, htext, ihChildren h.1.2, ihRest h.2]

/-- What holds of all characters of new texts holds of those of the trees. -/
theorem forall_mem_mapTextsForest {P : Char → Prop} (hf : ∀ s, ∀ c ∈ (f s).toList, P c)
    (ts : List Tree) : ∀ c ∈ (textOfForest (mapTextsForest f ts)).toList, P c := by
  induction ts using forestInduction with
  | nil => nofun
  | cons tag operator text children rest ihChildren ihRest =>
      have htext : ∀ c ∈ ((text.map f).getD "").toList, P c := by
        cases text with
        | none => nofun
        | some s => exact hf s
      rw [mapTextsForest_cons, textOfForest_cons, Tree.text, String.toList_append,
        String.toList_append, List.forall_mem_append, List.forall_mem_append]
      exact ⟨⟨htext, ihChildren⟩, ihRest⟩

end Tree

/-! ## Marks -/

namespace Xml

open SelectorExplain.Tree

/-- A mark with another text, or with other values. -/
def Mark.mapStrings (f g : String → String) : Mark → Mark
  | opening name attributes => opening name (attributes.map fun a => (a.1, g a.2))
  | void name attributes => void name (attributes.map fun a => (a.1, g a.2))
  | text content => text (f content)
  | m => m

variable {f g : String → String}

@[simp] theorem Mark.isText_mapStrings (m : Mark) : (m.mapStrings f g).isText = m.isText := by
  cases m <;> rfl

theorem attributes_map (hg : ∀ op : Operator, g op.name = op.name) (space : Option String)
    (operator : Option Operator) :
    attributes (space.map g) operator = (attributes space operator).map fun a => (a.1, g a.2) := by
  cases space <;> cases operator <;> simp [attributes, hg]

theorem marksOfForest_mapTexts (hf : ∀ s, f s = "" ↔ s = "")
    (hg : ∀ op : Operator, g op.name = op.name) (depth : Nat) (space : Option String)
    (ts : List Tree) :
    marksOfForest depth (space.map g) (mapTextsForest f ts) =
      (marksOfForest depth space ts).map fun m => (m.1, m.2.mapStrings f g) := by
  induction ts using forestInduction generalizing depth space with
  | nil => rfl
  | cons tag operator text children rest ihChildren ihRest =>
      have htext : (text.map f).getD "" = f (text.getD "") := by
        cases text with
        | none => exact ((hf "").2 rfl).symm
        | some s => rfl
      have hbelow := ihChildren (depth + 1) none
      rw [Option.map_none] at hbelow
      rw [mapTextsForest_cons, marksOfForest_cons, marksOfForest_cons, ihRest, marks_node,
        marks_node, htext, attributes_map hg, List.map_append]
      simp only [hf, isEmpty_mapTextsForest]
      congr 1
      split
      · rfl
      · unfold contents
        by_cases hcontent : text.getD "" = ""
        · simp [hcontent, (hf "").2 rfl, hbelow, Mark.mapStrings]
        · simp [hcontent, hf, hbelow, Mark.mapStrings]

theorem map_spread (hspace : ∀ n, f ("\n" ++ "".pushn ' ' n) = "\n" ++ "".pushn ' ' n)
    (indent : Option Nat) (fresh : Bool) (marks : List (Nat × Mark)) :
    (spread indent fresh marks).map (Mark.mapStrings f g) =
      spread indent fresh (marks.map fun m => (m.1, m.2.mapStrings f g)) := by
  have hgap (fresh : Bool) (depth : Nat) (m : Mark) :
      (gap indent fresh depth m).map (Mark.mapStrings f g) =
        gap indent fresh depth (m.mapStrings f g) := by
    unfold gap
    split
    · rfl
    · rw [Mark.isText_mapStrings]
      split
      · simp [Mark.mapStrings, hspace]
      · rfl
  induction marks generalizing fresh with
  | nil => rfl
  | cons m rest ih =>
      obtain ⟨depth, m⟩ := m
      simp [spread, hgap, ih]

/-- Other texts and another namespace in the marks of a document are the marks of another
    document. -/
theorem map_laidOut (hf : ∀ s, f s = "" ↔ s = "")
    (hspace : ∀ n, f ("\n" ++ "".pushn ' ' n) = "\n" ++ "".pushn ' ' n)
    (hg : ∀ op : Operator, g op.name = op.name) (layout : Layout) (ts : List Tree) :
    (laidOut layout ts).map (Mark.mapStrings f g) =
      laidOut { layout with space := g layout.space } (mapTextsForest f ts) := by
  have hline : f "\n" = "\n" := hspace 0
  have hfirst : (declarationMarks layout).map (Mark.mapStrings f g) =
      declarationMarks { layout with space := g layout.space } := by
    unfold declarationMarks
    dsimp only
    split
    · split
      · simp [Mark.mapStrings, hline]
      · rfl
    · rfl
  have hmarks := marksOfForest_mapTexts hf hg 0 (some layout.space) ts
  rw [Option.map_some] at hmarks
  rw [laidOut, laidOut, List.map_append, hfirst, map_spread hspace, List.map_append, hmarks]
  simp [Mark.mapStrings, hline]

end Xml

end SelectorExplain
