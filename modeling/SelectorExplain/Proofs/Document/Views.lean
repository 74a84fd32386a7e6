import SelectorExplain.Document.Json
import SelectorExplain.Proofs.Document.Subtrees
import SelectorExplain.Proofs.Json.Spelling
import SelectorExplain.Proofs.Xml.Layout

set_option autoImplicit false

/-! # The views of a document agree

A document is written as JSON, as XML and as plain text. What is compared here is what can be read
off what has been written: `JsonValue.objects` are the objects of a JSON value in the order in which
they start, `Xml.characterData` is all character data between marks, and `Xml.labels` are the start
tags and the empty tags.

Each of them is a map over the subtrees of the document in document order, so any two agree; JSON
makes its words for tags in its own way, and `Tag.word_eq_label` says that they are the labels of
XML. No convention on documents is needed for it: a text may be empty or have something below it,
and any element may have an operator. -/

namespace SelectorExplain

/-! ## JSON -/

namespace JsonValue

mutual

/-- The members of all objects in a value, in the order in which the objects start. -/
def objects : JsonValue → List (List (String × JsonValue))
  | null | bool _ | nat _ | str _ => []
  | arr items => objectsOfItems items
  | obj members => members :: objectsOfMembers members

/-- The objects in several values. -/
def objectsOfItems : List JsonValue → List (List (String × JsonValue))
  | [] => []
  | v :: rest => v.objects ++ objectsOfItems rest

/-- The objects in the values of members. -/
def objectsOfMembers : List (String × JsonValue) → List (List (String × JsonValue))
  | [] => []
  | (_, v) :: rest => v.objects ++ objectsOfMembers rest

end

theorem objectsOfMembers_append (a b : List (String × JsonValue)) :
    objectsOfMembers (a ++ b) = objectsOfMembers a ++ objectsOfMembers b := by
  induction a with
  | nil => rfl
  | cons m a ih =>
      obtain ⟨key, v⟩ := m
      rw [List.cons_append, objectsOfMembers, objectsOfMembers, ih, List.append_assoc]

/-- A string, or nothing for any other value. -/
def string? : JsonValue → Option String
  | str s => some s
  | _ => none

end JsonValue

namespace Tree

/-- The members of the object that a tree is written as. -/
def members (t : Tree) : List (String × JsonValue) :=
  ("tag", .str t.tag.word) ::
    (JsonValue.optional "operator" (t.operator.map fun op => .str op.name) ++
    (JsonValue.optional "text" (t.content.map .str) ++
    [("children", .arr (toJsonItems t.children))]))

theorem toJson_eq_obj (t : Tree) : t.toJson = .obj t.members := by
  obtain ⟨tag, operator, content, children⟩ := t
  rfl

/-- The only objects inside the members of a tree are those of its children. -/
theorem objectsOfMembers_members (t : Tree) :
    JsonValue.objectsOfMembers t.members =
      JsonValue.objectsOfItems (toJsonItems t.children) := by
  have hstring (key : String) (s : Option String) :
      JsonValue.objectsOfMembers (JsonValue.optional key (s.map .str)) = [] := by
    cases s <;> rfl
  have hoperator : t.operator.map (fun op => JsonValue.str op.name) =
      (t.operator.map Operator.name).map .str := by
    rw [Option.map_map]
    rfl
  unfold members
  rw [hoperator, JsonValue.objectsOfMembers, JsonValue.objectsOfMembers_append,
    JsonValue.objectsOfMembers_append, hstring, hstring]
  simp [JsonValue.objects, JsonValue.objectsOfMembers]

/-- Each element is written as one object, in document order. -/
theorem objectsOfItems_toJsonItems (ts : List Tree) :
    JsonValue.objectsOfItems (toJsonItems ts) = (subtreesOfForest ts).map members := by
  induction ts using forestInduction with
  | nil => rfl
  | cons tag operator content children rest ihChildren ihRest =>
      rw [toJsonItems, toJson_eq_obj, JsonValue.objectsOfItems, JsonValue.objects,
        objectsOfMembers_members, subtreesOfForest_cons, List.map_cons, List.map_append, ihRest,
        Tree.children, ihChildren, List.cons_append]

theorem lookup_tag_members (t : Tree) : t.members.lookup "tag" = some (.str t.tag.label) := by
  rw [← t.tag.word_eq_label]
  rfl

theorem lookup_operator_members (t : Tree) :
    t.members.lookup "operator" = t.operator.map fun op => .str op.name := by
  obtain ⟨tag, operator, content, children⟩ := t
  cases operator <;> cases content <;> rfl

theorem lookup_text_members (t : Tree) : t.members.lookup "text" = t.content.map .str := by
  obtain ⟨tag, operator, content, children⟩ := t
  cases operator <;> cases content <;> rfl

end Tree

/-! ## XML -/

namespace Xml

open SelectorExplain.Tree

/-- The character data of a mark. -/
def Mark.data : Mark → String
  | text content => content
  | _ => ""

/-- All character data between marks. -/
def characterData (marks : List Mark) : String := String.join (marks.map Mark.data)

/-- The name and the operator that a start tag or an empty tag has. -/
def Mark.label? : Mark → Option (String × Option String)
  | opening name attributes | void name attributes => some (name, attributes.lookup "operator")
  | _ => none

/-- The start tags and the empty tags, in order. -/
def labels (marks : List Mark) : List (String × Option String) := marks.filterMap Mark.label?

theorem lookup_operator_attributes (space : Option String) (operator : Option Operator) :
    (attributes space operator).lookup "operator" = operator.map Operator.name := by
  cases space <;> cases operator <;> rfl

/-- What is between the tags of an element is its text. -/
theorem characterData_marksOfForest (depth : Nat) (space : Option String) (ts : List Tree) :
    characterData ((marksOfForest depth space ts).map (·.2)) = textOfForest ts := by
  induction ts using forestInduction generalizing depth space with
  | nil => rfl
  | cons tag operator content children rest ihChildren ihRest =>
      unfold characterData at ihChildren ihRest ⊢
      rw [marksOfForest_cons, List.map_append, List.map_append, String.join_append, ihRest,
        textOfForest_cons, text, marks_node]
      congr 1
      by_cases hempty : content.getD "" = "" ∧ children.isEmpty
      · rw [if_pos hempty, hempty.1, List.isEmpty_iff.1 hempty.2]
        rfl
      · rw [if_neg hempty, ← ihChildren (depth + 1) none]
        by_cases hcontent : content.getD "" = ""
        · simp [contents, hcontent, Mark.data]
        · simp [contents, hcontent, Mark.data]

/-- Each element has one start tag or one empty tag, in document order. -/
theorem labels_marksOfForest (depth : Nat) (space : Option String) (ts : List Tree) :
    labels ((marksOfForest depth space ts).map (·.2)) =
      (subtreesOfForest ts).map fun t => (t.tag.label, t.operator.map Operator.name) := by
  induction ts using forestInduction generalizing depth space with
  | nil => rfl
  | cons tag operator content children rest ihChildren ihRest =>
      unfold labels at ihChildren ihRest ⊢
      rw [marksOfForest_cons, List.map_append, List.filterMap_append, ihRest,
        subtreesOfForest_cons, List.map_cons, List.map_append, ← List.cons_append, marks_node]
      congr 1
      by_cases hempty : content.getD "" = "" ∧ children.isEmpty
      · rw [if_pos hempty, List.isEmpty_iff.1 hempty.2]
        simp [Mark.label?, lookup_operator_attributes, Tree.tag, Tree.operator]
      · rw [if_neg hempty, ← ihChildren (depth + 1) none]
        by_cases hcontent : content.getD "" = ""
        · simp [contents, hcontent, Mark.label?, lookup_operator_attributes, Tree.tag,
            Tree.operator]
        · -- character data is no tag
          simp [contents, hcontent, Mark.label?, List.filterMap_cons, lookup_operator_attributes,
            Tree.tag, Tree.operator]

/-- The space between marks has no tags. -/
theorem labels_spread (indent : Option Nat) (fresh : Bool) (marks : List (Nat × Mark)) :
    labels (spread indent fresh marks) = labels (marks.map (·.2)) := by
  have hgap (fresh : Bool) (depth : Nat) (m : Mark) : labels (gap indent fresh depth m) = [] := by
    unfold gap
    split
    · rfl
    · split <;> rfl
  induction marks generalizing fresh with
  | nil => rfl
  | cons m rest ih =>
      obtain ⟨depth, m⟩ := m
      unfold labels at hgap ih ⊢
      rw [spread, List.filterMap_append, hgap, List.nil_append, List.map_cons,
        List.filterMap_cons, List.filterMap_cons, ih]

/-- Whatever the layout, each element has one start tag or one empty tag. -/
theorem labels_laidOut (layout : Layout) (ts : List Tree) :
    labels (laidOut layout ts) =
      (subtreesOfForest ts).map fun t => (t.tag.label, t.operator.map Operator.name) := by
  have hdeclaration : labels (declarationMarks layout) = [] := by
    unfold declarationMarks
    split
    · split <;> rfl
    · rfl
  have hmarks := labels_marksOfForest 0 (some layout.space) ts
  have hspread := labels_spread layout.indent layout.declaration
    (marksOfForest 0 (some layout.space) ts ++ [(0, .text "\n")])
  unfold laidOut labels at *
  rw [List.filterMap_append, hdeclaration, hspread, List.map_append, List.filterMap_append, hmarks]
  exact List.append_nil _

end Xml

/-! ## Documents -/

namespace Document

open SelectorExplain.Tree SelectorExplain.Xml

/-- Without roots there are no trees. -/
theorem forest_of_isEmpty {d : Document} (h : d.isEmpty = true) : d.forest = [] := by
  unfold forest
  rw [List.isEmpty_iff.1 h]
  rfl

/-- The XML of a document on one line, without a declaration and without the line break at its
    end, is that of its marks. -/
theorem exists_toXml_eq (d : Document) (space : String) :
    ∃ body, d.toXml { space, indent := none, declaration := false } =
        body ++ (if d.isEmpty then "" else "\n") ∧
      scan body = some ((marksOfForest 0 (some space) d.forest).map (·.2)) := by
  refine ⟨compact (marksOfForest 0 (some space) d.forest), ?_, ?_⟩
  · unfold toXml
    by_cases hempty : d.isEmpty
    · rw [if_pos hempty, if_pos hempty, forest_of_isEmpty hempty]
      rfl
    · rw [if_neg hempty, if_neg hempty]
      rfl
  · have hreadable := Readable.marksOfForest d.forest .nil 0 (some space)
    rw [List.append_nil] at hreadable
    refine scan_render hreadable ?_
    rw [toList_compact (ne_declaration_of_mem d.forest 0 (some space)) false, spread_none]

/-- The tags that are read from the XML of a document are those of its elements in document order,
    whatever the layout. -/
theorem exists_scan_toXml {d : Document} (hne : d.isEmpty = false → d.forest ≠ [])
    (layout : Layout) :
    ∃ marks, scan (d.toXml layout) = some marks ∧ labels marks =
      (subtreesOfForest d.forest).map fun t => (t.tag.label, t.operator.map Operator.name) := by
  cases hroots : d.isEmpty with
  | true =>
      refine ⟨[], ?_, ?_⟩
      · rw [toXml, if_pos hroots]
        rfl
      · rw [forest_of_isEmpty hroots]
        rfl
  | false =>
      exact ⟨_, scan_render (readable_laidOut (hne hroots) layout) (toList_toXml hroots layout),
        labels_laidOut layout d.forest⟩

/-- **The views of a document agree.** What is read from its JSON and from its XML has the same
    text, which is that of the document, and the same tags and operators in the same order. -/
theorem views_agree (d : Document) (space : String) :
    ∃ json body marks,
      Json.parse d.toJson.compact = some json ∧ Json.parse d.toJson.pretty = some json ∧
      d.toXml { space, indent := none, declaration := false } =
        body ++ (if d.isEmpty then "" else "\n") ∧
      scan body = some marks ∧
      String.join (json.objects.filterMap fun m => (m.lookup "text").bind JsonValue.string?) =
        d.text ∧
      characterData marks = d.text ∧
      json.objects.map (fun m => (m.lookup "tag", m.lookup "operator")) =
        (labels marks).map fun l => (some (.str l.1), l.2.map .str) := by
  obtain ⟨body, hbody, hscan⟩ := d.exists_toXml_eq space
  have hobjects : d.toJson.objects = (subtreesOfForest d.forest).map members :=
    objectsOfItems_toJsonItems d.forest
  refine ⟨d.toJson, body, _, (Json.spells_compact _).parse, (Json.spells_pretty _).parse, hbody,
    hscan, ?_, characterData_marksOfForest 0 (some space) d.forest, ?_⟩
  · rw [hobjects, text, textOfForest_eq_join_contents, List.filterMap_map]
    congr 2
    funext t
    rw [Function.comp_apply, lookup_text_members]
    cases t.content <;> rfl
  · rw [hobjects, labels_marksOfForest, List.map_map, List.map_map]
    refine List.map_congr_left fun t _ => ?_
    simp [lookup_tag_members, lookup_operator_members, Function.comp_def]

end Document

end SelectorExplain
