import SelectorExplain.Main
import SelectorExplain.Selector.Json
import SelectorExplain.Settings.Json
import SelectorExplain.Proofs.Explainer.Reachable
import SelectorExplain.Proofs.Selector.Readable
import SelectorExplain.Proofs.Visitor.Recording
import SelectorExplain.Proofs.Document.Unattached
import SelectorExplain.Proofs.Json.Composite
import SelectorExplain.Proofs.Json.Compact
import SelectorExplain.Proofs.Selector.RoundTrip
import SelectorExplain.Proofs.Json.Yields
import SelectorExplain.Proofs.Selector.Canonical
import SelectorExplain.Proofs.Xml.Reader
import SelectorExplain.Proofs.Xml.Scan
import SelectorExplain.Proofs.Document.TextLeaves
import SelectorExplain.Proofs.Xml.Layout
import SelectorExplain.Proofs.Explainer.ReadBack
import SelectorExplain.Proofs.Selector.Written
import SelectorExplain.Proofs.Document.Extension
import SelectorExplain.Proofs.Explainer.Parts
import SelectorExplain.Proofs.Explainer.History
import SelectorExplain.Proofs.Json.Spelling
import SelectorExplain.Proofs.Document.Json
import SelectorExplain.Proofs.Explainer.Lossless
import SelectorExplain.Proofs.Document.Subtrees
import SelectorExplain.Proofs.Explainer.Schema
import SelectorExplain.Proofs.Document.Views
import SelectorExplain.Proofs.Document.Forest
import SelectorExplain.Proofs.Visitor.Resolution
import SelectorExplain.Proofs.Json.Grammar
import SelectorExplain.Proofs.Json.Skipping
import SelectorExplain.Proofs.Json.Forms
import SelectorExplain.Proofs.Json.Records
import SelectorExplain.Proofs.Selector.Spelled
import SelectorExplain.Proofs.Command.Output
import SelectorExplain.Proofs.Command.Outcome
import SelectorExplain.Proofs.Json.Inversion
import SelectorExplain.Proofs.Json.Fills
import SelectorExplain.Proofs.Selector.Flawed
import SelectorExplain.Proofs.Selector.Invariant
import SelectorExplain.Proofs.Selector.Chain
import SelectorExplain.Proofs.Xml.Indentation
import SelectorExplain.Proofs.Json.Natural
import SelectorExplain.Proofs.Command.Report
import SelectorExplain.Proofs.Command.Sources
import SelectorExplain.Proofs.Selector.Quoted
import SelectorExplain.Proofs.Xml.Characters
import SelectorExplain.Proofs.Xml.OtherTexts
import SelectorExplain.Proofs.Xml.LineEnds
import SelectorExplain.Proofs.Xml.Conforming
import SelectorExplain.Proofs.Explainer.Portable
