import SelectorExplain.Proofs.Explainer.Reachable
import SelectorExplain.Proofs.Xml.Layout

set_option autoImplicit false

/-! # Reading the XML of an explainer

An explainer adds texts only as leaves, never an empty one, and opens no text. So the texts of every
document that it can build stand apart, whatever has been done with it, and the document can be read
back from its XML in any layout. -/

namespace SelectorExplain

namespace Explainer

/-- **The XML of an explainer can be read back.** After any calls, the document is written without
    an error in any layout, whatever the namespace, the indent and the declaration. Its tags are
    balanced, and what is read is the forest of the document, element by element; its roots declare
    the namespace, and no other element does. -/
theorem reached_read_back (start : Layout) (calls : List Call) (layout : Layout) :
    (reached start calls).document = .ofForest (reached start calls).document.forest ∧
    ∃ xml marks, (reached start calls).document.writeXml layout = .ok xml ∧
      Xml.scan xml = some marks ∧ Xml.Balanced (Xml.body marks) ∧
      Xml.read xml =
        some (Xml.declareForest (some layout.space) (reached start calls).document.forest) := by
  obtain ⟨layout', height, ts, hspine, hx⟩ := openSpine_grows.reached start calls
  have hdocument : (reached start calls).document = .ofForest ts := by rw [hx]; rfl
  rw [hdocument, Document.forest_ofForest]
  obtain ⟨marks, hscan, hbalanced, hread⟩ := Document.read_toXml hspine.textLeaves layout
  exact ⟨rfl, _, marks, Document.writeXml_eq_ok _ layout, hscan, hbalanced, hread⟩

end Explainer

end SelectorExplain
