import SelectorExplain.Proofs.Explainer.Rendering
import SelectorExplain.Proofs.Xml.Conforming
import SelectorExplain.Selector.Decode
import SelectorExplain.Settings.Toml

set_option autoImplicit false

/-! # Explanations for conforming readers

The XML of an explanation has escapes for brackets, ampersands and quotes, and no others. So a
selector or a namespace may bring in characters that XML does not allow, or line ends and breaks
that a reader takes for others, and then the explanation is not read as it was meant
(`Group.explainWith_portable`). -/

namespace SelectorExplain

namespace Group

open SelectorExplain.Xml

/-- **When the XML of a selector is read as it was meant.** In any layout, its characters are ones
    that XML allows exactly if those of the selector and of the namespace are; there is a carriage
    return in its character data exactly if there is one in the selector; and there is a break in
    its attribute values exactly if there is one in the namespace. A conforming reader refuses a
    document with a character that is not allowed, and from others it reads the explanation and the
    namespace with line ends and breaks changed. So it reads them as they are exactly if there is
    none of these. -/
theorem explainWith_portable (g : Group) (layout : Layout) :
    ∃ x xml, g.explainWith layout = .ok x ∧ x.text = g.text ∧ x.writeXml = .ok xml ∧
      ((∀ c ∈ xml.toList, isLegal c = true) ↔
        (∀ c ∈ g.text.toList, isLegal c = true) ∧ ∀ c ∈ layout.space.toList, isLegal c = true) ∧
      ('\r' ∉ dataIn xml ↔ '\r' ∉ g.text.toList) ∧
      ((∀ c ∈ valuesIn xml, isBreak c = false) ↔ ∀ c ∈ layout.space.toList, isBreak c = false) ∧
      (readDocument xml = if xml.toList.all isLegal then
          some (declare (some (normalizeValue layout.space)) (g.explanation.mapTexts normalizeText))
        else none) ∧
      (readDocument xml = some (declare (some layout.space) g.explanation) ↔ Portable xml) := by
  have hleaves := g.textLeaves_explanation
  refine ⟨_, _, g.explainWith_eq layout, ?_, Explainer.writeXml_eq_ok _, ?_, ?_, ?_, ?_, ?_⟩
  · show (Document.ofForest [g.explanation]).text = g.text
    simp [Document.text, Document.forest_ofForest, g.text_explanation]
  · rw [← g.text_explanation]
    exact Document.forall_isLegal_toXml g.explanation layout
  · rw [← g.text_explanation]
    exact Document.return_notMem_dataIn_toXml g.explanation layout
  · exact Document.forall_isBreak_valuesIn_toXml g.explanation layout
  · exact Document.readDocument_toXml hleaves layout
  · exact Document.readDocument_toXml_iff hleaves layout

/-- A selector with one name. -/
def ofName (name : String) : Group := ⟨[.last [.id name]]⟩

/-- Its JSON, given the name as it is spelled there. -/
def nameJson (spelled : String) : String :=
  "\x7b\"sequences\": [\x7b\"simples\": [\x7b\"id\": \x7b\"id\": \"" ++ spelled ++
    "\"\x7d\x7d]\x7d]\x7d"

/-- A configuration whose namespace has a tab. -/
def tabbedSpace : String := "[explain]\nnamespace = \"urn:\\ta\"\n"

/-- A carriage return in a name and a tab in a namespace are written as they are, and are not read
    back. A null in a name is written too, and then the document is refused. -/
theorem explainWith_ofName :
    (∃ c x xml, ofJson (nameJson "a\\rb") = .ok (ofName "a\rb") ∧
      Config.parse tabbedSpace = .ok c ∧ (ofName "a\rb").explainWith c.explain.toLayout = .ok x ∧
      x.writeXml = .ok xml ∧ '\r' ∈ dataIn xml ∧ '\t' ∈ valuesIn xml ∧
      readDocument xml ≠ some (declare (some c.explain.space) (ofName "a\rb").explanation)) ∧
    ∃ x xml, ofJson (nameJson "\\u0000") = .ok (ofName "\x00") ∧
      (ofName "\x00").explain = .ok x ∧ x.writeXml = .ok xml ∧
      '\x00' ∈ xml.toList ∧ isLegal '\x00' = false ∧ readDocument xml = none := by
  constructor
  · have hdata : '\r' ∈ dataIn ((Document.ofForest [(ofName "a\rb").explanation]).toXml
        { space := "urn:\ta" }) := by
      decide +kernel
    refine ⟨{ explain := { space := "urn:\ta" } }, _, _, by decide +kernel, by decide +kernel,
      explainWith_eq _ _, Explainer.writeXml_eq_ok _, hdata, by decide +kernel, fun hread => ?_⟩
    have hportable := (Document.readDocument_toXml_iff (textLeaves_explanation _) _).1 hread
    exact hportable.data hdata
  · have hnull : '\x00' ∈ ((Document.ofForest [(ofName "\x00").explanation]).toXml {}).toList := by
      decide +kernel
    refine ⟨_, _, by decide +kernel, explainWith_eq _ _, Explainer.writeXml_eq_ok _, hnull,
      by decide, ?_⟩
    have hread := Document.readDocument_toXml (ofName "\x00").textLeaves_explanation {}
    rw [if_neg fun hlegal => ?_] at hread
    · exact hread
    · exact absurd (List.all_eq_true.1 hlegal '\x00' hnull) (by decide)

end Group

end SelectorExplain
