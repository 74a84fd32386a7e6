import SelectorExplain.Command.Basic
import SelectorExplain.Proofs.Explainer.Rendering
import SelectorExplain.Proofs.Json.Spelling

set_option autoImplicit false

/-! # What the command prints

Explaining a group never fails, whatever the settings (`Group.render_eq`). What is printed as text
or as JSON depends on the group and the format alone: the text is that of the group, and the JSON
reads back as an object with that text and the explanation of the group. -/

namespace SelectorExplain

/-! ## Printing an explanation -/

/-- An explainer's document as it is printed. -/
def Explainer.printed (x : Explainer) : OutputFormat → String
  | .xml => x.toXml
  | .text => x.text ++ "\n"
  | .json => x.response.toJson.emit

/-- The explanation of a group is always printed. -/
theorem Group.render_eq (g : Group) (s : Settings) :
    g.render s = .ok ((Explainer.ofForest s.toLayout 0 [g.explanation]).printed s.format) := by
  rw [render, explainWith_eq]
  dsimp only
  cases s.format with
  | xml =>
      rw [Explainer.writeXml_eq_ok]
      rfl
  | text => rfl
  | json =>
      rw [fromUTF8?_toByteArray]
      rfl

/-- Only XML depends on the layout. -/
theorem Explainer.printed_ofForest {format : OutputFormat} (h : format ≠ .xml)
    (layout layout' : Layout) (height : Nat) (ts : List Tree) :
    (Explainer.ofForest layout height ts).printed format =
      (Explainer.ofForest layout' height ts).printed format := by
  cases format with
  | xml => exact absurd rfl h
  | text | json => rfl

/-! ## The printed JSON -/

/-- The text of an object ends with its bracket. -/
theorem Json.Spells.getLast?_obj {members : List (String × JsonValue)} {t : List Char}
    (h : Spells (.obj members) t) : t.getLast? = some '\x7d' := by
  rcases h with ⟨-⟩
  rw [← List.cons_append, List.getLast?_concat]

/-- The explanation of a group printed as JSON: what it reads back as, and a line break behind it. -/
theorem Explainer.printed_json (layout : Layout) (g : Group) :
    ∃ text, (ofForest layout 0 [g.explanation]).printed .json = text ++ "\n" ∧
      text.toList.getLast? = some '\x7d' ∧
      Json.parse text = some (.obj [("status", .str "ok"), ("schema_version", .str "1"),
        ("selector", .str g.text), ("document", .arr [g.explanation.toJson])]) := by
  have hdocument : (Document.ofForest [g.explanation]).toJson = .arr [g.explanation.toJson] := by
    rw [Document.toJson, Document.forest_ofForest]
    rfl
  have hspells := Json.spells_pretty (ofForest layout 0 [g.explanation]).response.toJson
  refine ⟨_, rfl, hspells.getLast?_obj, ?_⟩
  rw [hspells.parse, ExplainResponse.toJson, response, text_explanation]
  exact congrArg (fun document => some (JsonValue.obj [("status", .str "ok"),
    ("schema_version", .str "1"), ("selector", .str g.text), ("document", document)])) hdocument

/-- **A group is always explained**, in every format and layout. The JSON that is printed reads back
    as the text of the group and its explanation, with one line break behind it; what is printed as
    text is the same text with a line break. Neither depends on the layout. -/
theorem Group.render_eq_ok (g : Group) (s : Settings) :
    ∃ x output, g.explain = .ok x ∧ x.text = g.text ∧ x.document.forest = [g.explanation] ∧
      g.render s = .ok output ∧
      (s.format = .json → ∃ text, output = text ++ "\n" ∧ text.toList.getLast? = some '\x7d' ∧
        Json.parse text = some (.obj [("status", .str "ok"), ("schema_version", .str "1"),
          ("selector", .str g.text), ("document", .arr [g.explanation.toJson])])) ∧
      (s.format = .text → output = g.text ++ "\n") ∧
      (s.format ≠ .xml → ∀ s' : Settings, s'.format = s.format → g.render s' = .ok output) := by
  refine ⟨_, _, g.explainWith_eq {}, Explainer.text_explanation .., Document.forest_ofForest _,
    g.render_eq s, fun hjson => ?_, fun htext => ?_, ?_⟩
  · rw [hjson]
    exact Explainer.printed_json s.toLayout g
  · rw [htext, Explainer.printed, Explainer.text_explanation]
  · intro hne s' hformat
    rw [g.render_eq s', hformat, Explainer.printed_ofForest hne s'.toLayout s.toLayout]

end SelectorExplain
