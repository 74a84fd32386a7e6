import SelectorExplain.Proofs.Document.Subtrees
import SelectorExplain.Proofs.Explainer.Reachable

set_option autoImplicit false

/-! # The schema of explanations

However an explainer is used, its document keeps a schema (`Document.Schema`): which elements have a
text or an operator, what stands inside an attribute selector and inside a combinator, and where a
group may stand.

Most of the schema looks at one element with what is below it (`Tree.Conforms`). An attribute's
element is complete when its handler returns and is never open between two calls, so what can be
open are elements that may get further children. `Shaped` says that of the open elements, from the
innermost outwards. That a group comes first is a matter of the order of tags. -/

namespace SelectorExplain

/-! ## The schema of a document -/

namespace Tree

/-- What stands inside the element of an attribute selector: brackets around the name and, unless
    the operator asks for mere presence, its punctuation and a value between quotes. -/
inductive AttributeParts : Operator → List Tree → Prop
  | present (name : String) :
      AttributeParts .present [.ofText "[", .labelled .name name, .ofText "]"]
  | comparison {op : Operator} {mark : String} (hmark : op.punctuation = some mark)
      (name value : String) :
      AttributeParts op [.ofText "[", .labelled .name name, .labelled .operator mark,
        .ofText "\"", .labelled .value value, .ofText "\"", .ofText "]"]

end Tree

namespace Document

/-- The children of an element unfold to these trees. -/
def HasBelow (d : Document) (e : Element) (ts : List Tree) : Prop :=
  e.children.map (d.treeWithin d.size) = ts.map some

/-- The schema of explanations, element by element. -/
structure Schema (d : Document) : Prop where
  /-- Text elements, and no others, have a text. -/
  text_iff : ∀ {id e}, d.get? id = some e → (e.text.isSome = true ↔ e.tag = .text)
  /-- A text is not empty and stands alone. -/
  text : ∀ {id e content}, d.get? id = some e → e.text = some content →
    content ≠ "" ∧ e.children = [] ∧ e.operator = none
  /-- Attribute elements, and no others, have an operator. -/
  operator_iff : ∀ {id e}, d.get? id = some e → (e.operator.isSome = true ↔ e.tag = .attr)
  /-- Attribute elements are complete. -/
  attr : ∀ {id e op}, d.get? id = some e → e.operator = some op →
    ∃ ts, d.HasBelow e ts ∧ Tree.AttributeParts op ts
  /-- The punctuation of a combinator comes first in its element, which has no other text. -/
  combinator : ∀ {id e kind}, d.get? id = some e → e.tag = .ofCombinator kind →
    ∃ rest, d.HasBelow e (.ofText kind.punctuation :: rest) ∧ ∀ t ∈ rest, t.tag ≠ .text
  /-- Only the first element can be a group, and it is the first root. -/
  group : ∀ {id e}, d.get? id = some e → e.tag = .selectorGroup →
    id = 0 ∧ d.roots.head? = some 0

end Document

namespace Tree

/-! ## Conforming trees -/

/-- The tags of elements that have neither text nor operator and may hold anything. -/
def plainTags : List Tag :=
  [.selectorGroup, .selector, .universal, .type, .id, .className, .name, .operator, .value]

/-- The element at the root of the tree is as the schema asks. -/
inductive Conforms : Tree → Prop
  | text {content : String} (hne : content ≠ "") : Conforms (.ofText content)
  | attr {op : Operator} {children : List Tree} (hparts : AttributeParts op children) :
      Conforms (.node .attr (some op) none children)
  | combinator (kind : CombinatorKind) {rest : List Tree} (hrest : ∀ t ∈ rest, t.tag ≠ .text) :
      Conforms (.node (.ofCombinator kind) none none (.ofText kind.punctuation :: rest))
  | plain {tag : Tag} (htag : tag ∈ plainTags) (children : List Tree) :
      Conforms (.node tag none none children)

/-- Every element is as the schema asks. -/
def Tidy (ts : List Tree) : Prop := Everywhere Conforms ts

/-- Every element is as the schema asks, and none is a group. -/
def Inner (ts : List Tree) : Prop := Everywhere (fun t => t.Conforms ∧ t.tag ≠ .selectorGroup) ts

theorem Inner.tidy {ts : List Tree} (h : Inner ts) : Tidy ts := h.mono fun _ ht => ht.1

theorem Inner.group_notMem {ts : List Tree} (h : Inner ts) :
    Tag.selectorGroup ∉ tagsOfForest ts := by
  intro hmem
  obtain ⟨t, ht, htag⟩ := List.mem_map.1 hmem
  exact (h t ht).2 htag

theorem inner_ofText {content : String} (hne : content ≠ "") {rest : List Tree} (h : Inner rest) :
    Inner (.ofText content :: rest) :=
  everywhere_cons.2 ⟨⟨.text hne, nofun⟩, everywhere_nil, h⟩

theorem inner_labelled {tag : Tag} (htag : tag ∈ plainTags ∧ tag ≠ .selectorGroup)
    (content : String) {rest : List Tree} (h : Inner rest) :
    Inner (labelled tag content :: rest) := by
  refine everywhere_cons.2 ⟨⟨.plain htag.1 _, htag.2⟩, ?_, h⟩
  split
  · exact everywhere_nil
  · next hne => exact inner_ofText hne everywhere_nil

theorem Conforms.ne_text {tag : Tag} {children : List Tree}
    (h : Conforms (.node tag none none children)) : tag ≠ .text := by
  generalize htree : Tree.node tag none none children = tree at h
  cases h with
  | text hne => cases htree
  | attr hparts => cases htree
  | combinator kind hrest =>
      cases htree
      cases kind <;> decide
  | plain htag _ =>
      cases htree
      rintro rfl
      exact absurd htag (by decide)

/-- What an open element gets is no text, unless the element is a group. -/
theorem Conforms.grow {tag : Tag} {children new : List Tree}
    (h : Conforms (.node tag none none children))
    (hnew : tag = .selectorGroup ∨ ∀ t ∈ new, t.tag ≠ .text) :
    Conforms (.node tag none none (children ++ new)) := by
  generalize htree : Tree.node tag none none children = tree at h
  cases h with
  | text hne => cases htree
  | attr hparts => cases htree
  | @combinator kind rest hrest =>
      cases htree
      refine .combinator kind fun t ht => ?_
      rcases hnew with hgroup | hnew
      · cases kind <;> cases hgroup
      · rcases List.mem_append.1 ht with ht | ht
        · exact hrest t ht
        · exact hnew t ht
  | plain htag _ =>
      cases htree
      exact .plain htag _

end Tree

/-! ## Explanations conform -/

open SelectorExplain.Tree

/-- With a literal exactly when its operator compares with one, an attribute has all its parts. -/
theorem Attribute.WellFormed.attributeParts {a : Attribute} (h : a.WellFormed) :
    AttributeParts a.operator a.parts := by
  obtain ⟨name, op, literal⟩ := a
  unfold WellFormed at h
  cases literal with
  | none =>
      obtain rfl : op = .present := by simpa [Operator.takesLiteral] using h.symm
      exact .present name
  | some literal =>
      have hmark : ∃ mark, op.punctuation = some mark := by
        cases op
        · cases h
        all_goals exact ⟨_, rfl⟩
      obtain ⟨mark, hmark⟩ := hmark
      unfold parts
      simp only [hmark]
      exact .comparison hmark name (escapeLiteral literal)

theorem Tree.AttributeParts.inner {op : Operator} {ts : List Tree} (h : AttributeParts op ts) :
    Inner ts := by
  have hclose : Inner [.ofText "]"] := inner_ofText (by decide) everywhere_nil
  cases h with
  | present name => exact inner_ofText (by decide) (inner_labelled (by decide) name hclose)
  | @comparison _ mark hmark name value =>
      have hunquoted : Inner [.ofText "\"", .ofText "]"] := inner_ofText (by decide) hclose
      have hvalue : Inner [.labelled .value value, .ofText "\"", .ofText "]"] :=
        inner_labelled (by decide) value hunquoted
      have hmarked : Inner (.labelled .operator mark :: .ofText "\"" :: _) :=
        inner_labelled (by decide) mark (inner_ofText (by decide) hvalue)
      exact inner_ofText (by decide) (inner_labelled (by decide) name hmarked)

theorem Simple.WellFormed.inner_explanation {s : Simple} (h : s.WellFormed) :
    Inner [s.explanation] := by
  cases s with
  | universal space => exact inner_labelled (by decide) _ everywhere_nil
  | type name space => exact inner_labelled (by decide) _ everywhere_nil
  | id name => exact inner_labelled (by decide) _ everywhere_nil
  | className name => exact inner_labelled (by decide) _ everywhere_nil
  | attr test =>
      have hparts := Attribute.WellFormed.attributeParts h
      exact everywhere_cons.2 ⟨⟨.attr hparts, nofun⟩, hparts.inner, everywhere_nil⟩

theorem Simple.tag_explanation (s : Simple) : s.explanation.tag ≠ .text := by
  cases s <;> exact nofun

namespace Tree

/-! ## Open elements -/

/-- Every element of the forest is as the schema asks, and so it stays when the first `height`
    elements of the rightmost path get further children. The innermost of these comes last in the
    derivation: it is grafted on what is there without it. -/
inductive Shaped : (height : Nat) → List Tree → Prop
  | closed {ts : List Tree} (h : Tidy ts) : Shaped 0 ts
  | opened {height : Nat} {ts children : List Tree} {tag : Tag} (h : Shaped height ts)
      (hroot : Conforms (.node tag none none children)) (hchildren : Tidy children) :
      Shaped (height + 1) (graft height [.node tag none none children] ts)

variable {height : Nat} {ts new : List Tree}

theorem Shaped.hasSpine (h : Shaped height ts) : HasSpine height ts := by
  induction h with
  | closed h => exact .zero _
  | opened h hroot hchildren ih => exact ih.graft_succ _

/-- Elements that are no texts may be added anywhere. -/
theorem Shaped.graft (h : Shaped height ts) (hnew : Tidy new) (htags : ∀ t ∈ new, t.tag ≠ .text) :
    Shaped height (graft height new ts) := by
  cases h with
  | closed h => exact .closed (h.append hnew)
  | opened h hroot hchildren =>
      rw [graft_succ_graft h.hasSpine]
      exact .opened h (hroot.grow (.inr htags)) (hchildren.append hnew)

/-- Closing the innermost element leaves it where it has been grafted. -/
theorem Shaped.of_succ (h : Shaped (height + 1) ts) : Shaped height ts := by
  cases h with
  | @opened _ ts children tag h hroot hchildren =>
      have htip := everywhere_cons.2 ⟨hroot, hchildren, everywhere_nil⟩
      exact h.graft htip (by simpa [Tree.tag] using hroot.ne_text)

theorem Shaped.tidy (h : Shaped height ts) : Tidy ts := by
  induction height generalizing ts with
  | zero =>
      cases h with
      | closed h => exact h
  | succ height ih => exact ih h.of_succ

/-- Only the first element may be a group. -/
def GroupFirst (ts : List Tree) : Prop := Tag.selectorGroup ∉ (tagsOfForest ts).tail

theorem GroupFirst.graft (h : GroupFirst ts) (hspine : HasSpine height ts) (hnew : Inner new) :
    GroupFirst (graft height new ts) := by
  unfold GroupFirst at h ⊢
  rw [tagsOfForest_graft hspine]
  intro hmem
  cases htags : tagsOfForest ts with
  | nil =>
      rw [htags, List.nil_append] at hmem
      exact hnew.group_notMem (List.mem_of_mem_tail hmem)
  | cons first rest =>
      rw [htags] at h hmem
      rcases List.mem_append.1 hmem with hmem | hmem
      · exact h hmem
      · exact hnew.group_notMem hmem

end Tree

/-! ## From forests to documents -/

/-- The document of a forest keeps the schema if the elements of the forest do. -/
theorem Document.schema_ofForest {ts : List Tree} (htidy : Tidy ts) (hfirst : GroupFirst ts) :
    (Document.ofForest ts).Schema where
  text_iff := by
    intro id e hget
    obtain ⟨t, ht, rfl, -⟩ := get?_ofForest_eq_some hget
    cases htidy t (List.mem_of_getElem? ht) with
    | text hne => exact iff_of_true rfl rfl
    | attr hparts => exact iff_of_false Bool.false_ne_true nofun
    | combinator kind hrest =>
        exact iff_of_false Bool.false_ne_true (Conforms.combinator kind hrest).ne_text
    | plain htag children =>
        exact iff_of_false Bool.false_ne_true (Conforms.plain htag children).ne_text
  text := by
    intro id e content hget htext
    obtain ⟨t, ht, rfl, -⟩ := get?_ofForest_eq_some hget
    cases htidy t (List.mem_of_getElem? ht) with
    | text hne =>
        cases htext
        exact ⟨hne, rfl, rfl⟩
    | attr hparts => cases htext
    | combinator kind hrest => cases htext
    | plain htag children => cases htext
  operator_iff := by
    intro id e hget
    obtain ⟨t, ht, rfl, -⟩ := get?_ofForest_eq_some hget
    cases htidy t (List.mem_of_getElem? ht) with
    | text hne => exact iff_of_false Bool.false_ne_true nofun
    | attr hparts => exact iff_of_true rfl rfl
    | combinator kind hrest =>
        refine iff_of_false Bool.false_ne_true ?_
        cases kind <;> exact nofun
    | plain htag children =>
        refine iff_of_false Bool.false_ne_true ?_
        rintro rfl
        exact absurd htag (by decide)
  attr := by
    intro id e op hget hop
    obtain ⟨t, ht, rfl, hbelow⟩ := get?_ofForest_eq_some hget
    cases htidy t (List.mem_of_getElem? ht) with
    | text hne => cases hop
    | attr hparts =>
        cases hop
        exact ⟨_, hbelow, hparts⟩
    | combinator kind hrest => cases hop
    | plain htag children => cases hop
  combinator := by
    intro id e kind hget hkind
    obtain ⟨t, ht, rfl, hbelow⟩ := get?_ofForest_eq_some hget
    cases htidy t (List.mem_of_getElem? ht) with
    | text hne => cases kind <;> cases hkind
    | attr hparts => cases kind <;> cases hkind
    | @combinator kind' rest hrest =>
        obtain rfl := CombinatorKind.eq_of_tag_eq hkind
        exact ⟨rest, hbelow, hrest⟩
    | @plain tag htag children =>
        obtain rfl : tag = .ofCombinator kind := hkind
        cases kind <;> exact absurd htag (by decide)
  group := by
    intro id e hget htag
    obtain ⟨t, ht, rfl, -⟩ := get?_ofForest_eq_some hget
    cases id with
    | zero =>
        refine ⟨rfl, ?_⟩
        cases ts with
        | nil => cases ht
        | cons root rest => rfl
    | succ id =>
        -- a group behind the first element would be among the other tags
        refine absurd ?_ hfirst
        have htags : (tagsOfForest ts)[id + 1]? = some .selectorGroup := by
          rw [tagsOfForest, List.getElem?_map, ht]
          exact congrArg some htag
        rw [← List.getElem?_tail] at htags
        exact List.mem_of_getElem? htags

/-! ## What the steps of an explainer keep -/

namespace Explainer

variable {x : Explainer}

/-- The explainer has built a forest in which the elements it has open may get further children, and
    in which only the first element may be a group. -/
def InShape : Explainer → Prop := Built fun height ts => Shaped height ts ∧ GroupFirst ts

variable {layout : Layout} {height : Nat} {ts : List Tree}

theorem inner_separators (x : Explainer) : Inner x.separators := by
  unfold separators
  split
  · exact inner_ofText (by decide) everywhere_nil
  · exact everywhere_nil

/-- A separator comes into a group only. -/
theorem shaped_separators (layout : Layout) (h : Shaped height ts) :
    Shaped height (graft height (ofForest layout height ts).separators ts) := by
  have hinner := inner_separators (ofForest layout height ts)
  by_cases hneeds : (ofForest layout height ts).needsSeparator
  · cases h with
    | closed h => cases hneeds
    | @opened height ts children tag h hroot hchildren =>
        rw [needsSeparator_ofForest layout h.hasSpine] at hneeds
        have hgroup : tag = .selectorGroup := by simpa using (Bool.and_eq_true_iff.1 hneeds).1
        rw [graft_succ_graft h.hasSpine]
        exact .opened h (hroot.grow (.inl hgroup)) (hchildren.append hinner.tidy)
  · unfold separators
    rw [if_neg hneeds, graft_nil h.hasSpine]
    exact h

theorem InShape.clear (x : Explainer) : x.clear.InShape := by
  rw [clear_eq_ofForest]
  exact built_ofForest x.layout ⟨.closed everywhere_nil, nofun⟩

theorem InShape.enterGroup (h : x.InShape) (hempty : x.document.isEmpty) :
    ((enter .selectorGroup "").run x).2.InShape := by
  obtain ⟨layout, height, ts, ⟨hshaped, -⟩, rfl⟩ := h
  obtain rfl : ts = [] := isEmpty_ofForest.1 hempty
  obtain rfl := hshaped.hasSpine.eq_zero
  have hroot : Conforms (.node .selectorGroup none none []) := .plain (by decide) []
  rw [run_enter layout hshaped.hasSpine]
  exact built_ofForest layout ⟨hshaped.opened hroot everywhere_nil, nofun⟩

theorem InShape.enterSequence (h : x.InShape) : (enterSequence.run x).2.InShape := by
  obtain ⟨layout, height, ts, ⟨hshaped, hfirst⟩, rfl⟩ := h
  have hseparated := shaped_separators layout hshaped
  have hroot : Conforms (.node .selector none none []) := .plain (by decide) []
  have hnew : Inner [.node .selector none none []] := inner_labelled (by decide) "" everywhere_nil
  have hgroup := hfirst.graft hshaped.hasSpine (inner_separators (ofForest layout height ts))
  rw [run_enterSequence layout hshaped.hasSpine]
  exact built_ofForest layout
    ⟨hseparated.opened hroot everywhere_nil, hgroup.graft hseparated.hasSpine hnew⟩

theorem InShape.enterCombinator (h : x.InShape) (kind : CombinatorKind) :
    ((enter (.ofCombinator kind) kind.punctuation).run x).2.InShape := by
  obtain ⟨layout, height, ts, ⟨hshaped, hfirst⟩, rfl⟩ := h
  have hmark : kind.punctuation ≠ "" := by cases kind <;> decide
  have htag : Tag.ofCombinator kind ≠ .selectorGroup := by cases kind <;> decide
  have hroot : Conforms (.node (.ofCombinator kind) none none [.ofText kind.punctuation]) :=
    .combinator kind nofun
  have hbelow : Inner [.ofText kind.punctuation] := inner_ofText hmark everywhere_nil
  have hnew := everywhere_cons.2 ⟨⟨hroot, htag⟩, hbelow, everywhere_nil⟩
  rw [run_enter layout hshaped.hasSpine, labelled_punctuation]
  exact built_ofForest layout
    ⟨hshaped.opened hroot hbelow.tidy, hfirst.graft hshaped.hasSpine hnew⟩

theorem InShape.close (h : x.InShape) (kind : NodeKind) : ((close kind).run x).2.InShape := by
  obtain ⟨layout, height, ts, ⟨hshaped, hfirst⟩, rfl⟩ := h
  cases height with
  | zero =>
      rw [close_ofForest_zero]
      exact built_ofForest layout ⟨hshaped, hfirst⟩
  | succ height =>
      rw [close_ofForest layout hshaped.hasSpine]
      exact built_ofForest layout ⟨hshaped.of_succ, hfirst⟩

theorem InShape.visitSimple (h : x.InShape) {s : Simple} (hs : s.WellFormed) :
    ((visitSimple s).run x).2.InShape := by
  obtain ⟨layout, height, ts, ⟨hshaped, hfirst⟩, rfl⟩ := h
  have hnew := hs.inner_explanation
  rw [run_visitSimple layout hshaped.hasSpine]
  exact built_ofForest layout
    ⟨hshaped.graft hnew.tidy (by simpa using s.tag_explanation),
      hfirst.graft hshaped.hasSpine hnew⟩

/-- No step leaves the shape, as long as every attribute that is visited is well formed. -/
theorem inShape_keptFor : KeptFor Simple.WellFormed InShape where
  clear := fun {x} _ => InShape.clear x
  enterGroup := InShape.enterGroup
  enterSequence := InShape.enterSequence
  enterCombinator := InShape.enterCombinator
  close := InShape.close
  visitSimple := fun h _ hs => h.visitSimple hs

/-- **Every explanation keeps the schema.** Whatever has been called before, in whatever order, and
    whether it has been refused or not: if the attributes that were visited had a literal exactly
    when their operator compares with one, the document is as the schema asks. -/
theorem reached_schema (layout : Layout) {calls : List Call}
    (hcalls : ∀ c ∈ calls, ∀ s ∈ c.visits, s.WellFormed) :
    (reached layout calls).document.Schema := by
  have hstart : InShape { layout } := InShape.clear { layout }
  obtain ⟨layout', height, ts, ⟨hshaped, hfirst⟩, hx⟩ := inShape_keptFor.reached hstart hcalls
  rw [hx]
  exact Document.schema_ofForest hshaped.tidy hfirst

/-- An attribute selector inside a combinator that is never left, and what comes after a refusal. -/
theorem reached_schema_unbalanced :
    (∀ c ∈ [Call.event (.leaveGroup ⟨[]⟩), .event (.enterKind .next ⟨.child, .last []⟩),
        .walkSimple (.attr ⟨"a", .includes, some "\""⟩), .walk ⟨[.last [.id "b"]]⟩],
      ∀ s ∈ c.visits, s.WellFormed) ∧
    (reached {} [.event (.leaveGroup ⟨[]⟩), .event (.enterKind .next ⟨.child, .last []⟩),
      .walkSimple (.attr ⟨"a", .includes, some "\""⟩), .walk ⟨[.last [.id "b"]]⟩]).document.Schema :=
  ⟨by decide, reached_schema {} (by decide)⟩

end Explainer

end SelectorExplain
