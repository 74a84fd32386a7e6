import SelectorExplain.Proofs.Document.Json
import SelectorExplain.Proofs.Json.Spelling
import SelectorExplain.Proofs.Selector.Readable

set_option autoImplicit false

/-! # An explanation loses nothing

The explanation of a selector has an element of its own for every part, so it tells the selector
even where the text does not, with names and literals full of punctuation and with empty ones. Only
a namespace prefix has no element: it stands in front of a name behind a bar. As long as there is no
other bar in the names of types and their prefixes, groups with equal explanations are equal up to
prefixes that say nothing, and the JSON text of the explanation is enough to tell them. -/

namespace SelectorExplain

/-! ## Names without bars -/

/-- A type has no bar in its name or in its prefix. -/
def Simple.BarFree : Simple → Prop
  | type name space => '|' ∉ name.toList ∧ ∀ p ∈ space, '|' ∉ p.toList
  | _ => True

instance : (s : Simple) → Decidable s.BarFree
  | .type name space =>
    inferInstanceAs (Decidable ('|' ∉ name.toList ∧ ∀ p ∈ space, '|' ∉ p.toList))
  | .universal _ | .id _ | .className _ | .attr _ => isTrue trivial

def Sequence.BarFree : Sequence → Prop
  | last simples => ∀ s ∈ simples, s.BarFree
  | chained simples _ target => (∀ s ∈ simples, s.BarFree) ∧ target.BarFree

instance Sequence.decidableBarFree : (s : Sequence) → Decidable s.BarFree
  | last simples => inferInstanceAs (Decidable (∀ s ∈ simples, s.BarFree))
  | chained simples _ target =>
    have := decidableBarFree target
    inferInstanceAs (Decidable ((∀ s ∈ simples, s.BarFree) ∧ target.BarFree))

/-- A group in which bars stand only between prefixes and names. -/
def Group.BarFree (g : Group) : Prop := ∀ s ∈ g.sequences, s.BarFree

instance (g : Group) : Decidable g.BarFree :=
  inferInstanceAs (Decidable (∀ s ∈ g.sequences, s.BarFree))

/-! ## Lists -/

/-- Lists with equal images under one map have equal images under another, if elements do. -/
theorem map_eq_map_of_forall {α β γ : Type} {f : α → β} {g : α → γ} {a b : List α}
    (h : ∀ x ∈ a, ∀ y ∈ b, f x = f y → g x = g y) (hmap : a.map f = b.map f) :
    a.map g = b.map g := by
  induction a generalizing b with
  | nil =>
      cases b with
      | nil => rfl
      | cons y b => cases hmap
  | cons x a ih =>
      cases b with
      | nil => cases hmap
      | cons y b =>
          obtain ⟨hfirst, hrest⟩ := List.cons.inj hmap
          have hxy : g x = g y := h x (by simp) y (by simp) hfirst
          have hab : a.map g = b.map g :=
            ih (fun x hx y hy => h x (by simp [hx]) y (by simp [hy])) hrest
          rw [List.map_cons, List.map_cons, hxy, hab]

theorem intersperse_inj {α : Type} {separator : α} {a b : List α}
    (h : a.intersperse separator = b.intersperse separator) : a = b := by
  have hget : ∀ (xs : List α) (i : Nat), (xs.intersperse separator)[2 * i]? = xs[i]? :=
    fun _ _ => List.getElem?_intersperse_two_mul
  apply List.ext_getElem?
  intro i
  rw [← hget a, h, hget b]

/-! ## Names with their prefixes -/

/-- Behind the last bar stands the star, so whatever is in front of it is the prefix. -/
theorem qualified_star_inj {a b : Option String} (h : qualified a "*" = qualified b "*") :
    a = b := by
  cases a with
  | none =>
      cases b with
      | none => rfl
      | some q =>
          have hlength := congrArg List.length h
          simp [qualified] at hlength
  | some p =>
      cases b with
      | none =>
          have hlength := congrArg List.length h
          simp [qualified] at hlength
      | some q => rw [String.toList_injective (List.append_cancel_right h)]

/-- The only bar is the one behind the prefix. -/
theorem qualified_inj {a b : Option String} {nameA nameB : String} (ha : ∀ p ∈ a, '|' ∉ p.toList)
    (hnameA : '|' ∉ nameA.toList) (hnameB : '|' ∉ nameB.toList)
    (h : qualified a nameA = qualified b nameB) : a = b ∧ nameA = nameB := by
  cases a with
  | none =>
      cases b with
      | none => exact ⟨rfl, String.toList_injective h⟩
      | some q =>
          have hchars : nameA.toList = q.toList ++ '|' :: nameB.toList := h
          exact absurd (by simp [hchars]) hnameA
  | some p =>
      cases b with
      | none =>
          have hchars : p.toList ++ '|' :: nameA.toList = nameB.toList := h
          exact absurd (by simp [← hchars]) hnameB
      | some q =>
          obtain ⟨hspace, -, hname⟩ :=
            (List.append_cons_inj_of_notMem (ha p rfl) hnameA).1 h
          exact ⟨congrArg some (String.toList_injective hspace), String.toList_injective hname⟩

theorem notMem_of_mem_meaningful {space : Option String} (h : ∀ p ∈ space, '|' ∉ p.toList) :
    ∀ p ∈ meaningful space, '|' ∉ p.toList := by
  intro p hp
  rw [meaningful, Option.mem_filter_iff] at hp
  exact h p hp.1

/-! ## Labelled elements -/

theorem Tree.labelled_inj {tag : Tag} {a b : String} (h : labelled tag a = labelled tag b) :
    a = b := by
  have htext := congrArg Tree.text h
  rwa [text_labelled, text_labelled] at htext

theorem qualified_eq_of_labelled_eq {tag : Tag} {a b : Option String} {nameA nameB : String}
    (h : Tree.labelled tag (qualify a nameA) = Tree.labelled tag (qualify b nameB)) :
    qualified (meaningful a) nameA = qualified (meaningful b) nameB := by
  rw [← toList_qualify, ← toList_qualify, Tree.labelled_inj h]

/-! ## Attribute selectors -/

theorem Operator.punctuation_of_takesLiteral {op : Operator} (h : op.takesLiteral = true) :
    ∃ p, op.punctuation = some p := by
  cases op with
  | present => exact absurd h (by decide)
  | startsWith | endsWith | contains | equals | includes | dashMatch => exact ⟨_, rfl⟩

theorem Attribute.parts_of_no_literal (name : String) (op : Operator) :
    parts ⟨name, op, none⟩ = [.ofText "[", .labelled .name name, .ofText "]"] := by
  unfold parts
  cases op.punctuation <;> rfl

/-- The operator stands with the element itself; it tells whether there is a literal. -/
theorem Attribute.eq_of_parts_eq {a b : Attribute} (ha : a.WellFormed) (hb : b.WellFormed)
    (hoperator : a.operator = b.operator) (h : a.parts = b.parts) : a = b := by
  obtain ⟨nameA, op, literalA⟩ := a
  obtain ⟨nameB, opB, literalB⟩ := b
  obtain rfl : op = opB := hoperator
  cases literalA with
  | none =>
      cases literalB with
      | none =>
          rw [parts_of_no_literal, parts_of_no_literal] at h
          simp only [List.cons.injEq, and_true, true_and] at h
          rw [Tree.labelled_inj h]
      | some contentB => exact absurd (ha.trans hb.symm) Bool.false_ne_true
  | some contentA =>
      cases literalB with
      | none => exact absurd (hb.trans ha.symm) Bool.false_ne_true
      | some contentB =>
          obtain ⟨p, hp⟩ := Operator.punctuation_of_takesLiteral ha.symm
          simp only [parts, hp, List.cons_append, List.nil_append, List.cons.injEq, and_true,
            true_and] at h
          rw [Tree.labelled_inj h.1, escapeLiteral_inj (Tree.labelled_inj h.2)]

/-! ## Simple selectors -/

/-- The tag of an element tells what kind of simple selector it stands for. -/
theorem Simple.normalize_eq_of_explanation_eq {a b : Simple} (ha : a.WellFormed ∧ a.BarFree)
    (hb : b.WellFormed ∧ b.BarFree) (h : a.explanation = b.explanation) :
    a.normalize = b.normalize := by
  have htag := congrArg Tree.tag h
  cases a with
  | universal spaceA =>
      cases b with
      | universal spaceB =>
          have hspace := qualified_star_inj (qualified_eq_of_labelled_eq h)
          rw [normalize, normalize, hspace]
      | type | id | className | attr => cases htag
  | type nameA spaceA =>
      cases b with
      | type nameB spaceB =>
          obtain ⟨hnameA, hspaceA⟩ := ha.2
          obtain ⟨hspace, hname⟩ := qualified_inj (notMem_of_mem_meaningful hspaceA) hnameA hb.2.1
            (qualified_eq_of_labelled_eq h)
          rw [normalize, normalize, hspace, hname]
      | universal | id | className | attr => cases htag
  | id nameA =>
      cases b with
      | id nameB =>
          have hname : "#" ++ nameA = "#" ++ nameB := Tree.labelled_inj h
          rw [(String.append_right_inj _).1 hname]
      | universal | type | className | attr => cases htag
  | className nameA =>
      cases b with
      | className nameB =>
          have hname : "." ++ nameA = "." ++ nameB := Tree.labelled_inj h
          rw [(String.append_right_inj _).1 hname]
      | universal | type | id | attr => cases htag
  | attr testA =>
      cases b with
      | attr testB =>
          obtain ⟨-, hoperator, -, hparts⟩ := Tree.node.inj h
          rw [Attribute.eq_of_parts_eq ha.1 hb.1 (Option.some.inj hoperator) hparts]
      | universal | type | id | className => cases htag

theorem normalize_simples_eq {a b : List Simple} (ha : ∀ s ∈ a, s.WellFormed ∧ s.BarFree)
    (hb : ∀ s ∈ b, s.WellFormed ∧ s.BarFree)
    (h : a.map Simple.explanation = b.map Simple.explanation) :
    a.map Simple.normalize = b.map Simple.normalize :=
  map_eq_map_of_forall
    (fun s hs t ht => Simple.normalize_eq_of_explanation_eq (ha s hs) (hb t ht)) h

/-! ## Sequences -/

/-- A combinator cannot be taken for a simple selector. -/
theorem CombinatorKind.explanation_ne (kind : CombinatorKind) (target : Tree) (s : Simple) :
    s.explanation ≠ kind.explanation target := by
  intro h
  have htag := congrArg Tree.tag h
  cases s <;> cases kind <;> cases htag

/-- A chain that ends cannot be taken for one that goes on. -/
theorem Sequence.last_explanation_ne (a b : List Simple) (kind : CombinatorKind)
    (target : Sequence) : (last a).explanation ≠ (chained b kind target).explanation := by
  intro h
  obtain ⟨-, -, -, hchildren⟩ := Tree.node.inj h
  have hmem : kind.explanation target.explanation ∈ a.map Simple.explanation := by
    rw [hchildren]
    simp
  obtain ⟨s, -, hs⟩ := List.mem_map.1 hmem
  exact kind.explanation_ne _ s hs

theorem Sequence.normalize_eq_of_explanation_eq {a b : Sequence} (ha : a.WellFormed ∧ a.BarFree)
    (hb : b.WellFormed ∧ b.BarFree) (h : a.explanation = b.explanation) :
    a.normalize = b.normalize := by
  induction a generalizing b with
  | last simplesA =>
      cases b with
      | last simplesB =>
          obtain ⟨-, -, -, hchildren⟩ := Tree.node.inj h
          have hsimples := normalize_simples_eq (fun s hs => ⟨ha.1.2 s hs, ha.2 s hs⟩)
            (fun s hs => ⟨hb.1.2 s hs, hb.2 s hs⟩) hchildren
          rw [normalize, normalize, hsimples]
      | chained simplesB kindB targetB => exact absurd h (last_explanation_ne _ _ _ _)
  | chained simplesA kindA targetA ih =>
      cases b with
      | last simplesB => exact absurd h.symm (last_explanation_ne _ _ _ _)
      | chained simplesB kindB targetB =>
          obtain ⟨-, -, -, hchildren⟩ := Tree.node.inj h
          -- the combinator is the last child on both sides
          obtain ⟨hfront, hlast⟩ := List.append_inj' hchildren rfl
          obtain ⟨htag, -, -, hbelow⟩ := Tree.node.inj (List.cons.inj hlast).1
          have hkind : kindA = kindB := CombinatorKind.eq_of_tag_eq htag
          have hsimples := normalize_simples_eq (fun s hs => ⟨ha.1.1.2 s hs, ha.2.1 s hs⟩)
            (fun s hs => ⟨hb.1.1.2 s hs, hb.2.1 s hs⟩) hfront
          have htarget : targetA.explanation = targetB.explanation :=
            (List.cons.inj (List.cons.inj hbelow).2).1
          rw [normalize, normalize, hsimples, hkind,
            ih ⟨ha.1.2, ha.2.2⟩ ⟨hb.1.2, hb.2.2⟩ htarget]

/-! ## Groups -/

theorem Group.normalize_eq_of_explanation_eq {a b : Group} (ha : a.WellFormed ∧ a.BarFree)
    (hb : b.WellFormed ∧ b.BarFree) (h : a.explanation = b.explanation) :
    a.normalize = b.normalize := by
  obtain ⟨-, -, -, hchildren⟩ := Tree.node.inj h
  have hsequences : a.sequences.map Sequence.normalize = b.sequences.map Sequence.normalize := by
    refine map_eq_map_of_forall ?_ (intersperse_inj hchildren)
    intro s hs t ht
    exact Sequence.normalize_eq_of_explanation_eq ⟨ha.1 s hs, ha.2 s hs⟩ ⟨hb.1 t ht, hb.2 t ht⟩
  rw [normalize, normalize, hsequences]

/-! ## The JSON of an explanation -/

/-- The JSON text of what has been rendered, in some layout. -/
def Explainer.json (write : JsonValue → String) (x : Explainer) : String := write x.document.toJson

/-- In either layout the text tells the trees that have been rendered. -/
theorem explanation_eq_of_json_eq {a b : Group} {write : JsonValue → String}
    (hwrite : write = JsonValue.compact ∨ write = JsonValue.pretty)
    (h : a.explain.map (Explainer.json write) = b.explain.map (Explainer.json write)) :
    a.explanation = b.explanation := by
  rw [Group.explain, Group.explain, Group.explainWith_eq, Group.explainWith_eq] at h
  have htext : write (Document.ofForest [a.explanation]).toJson =
      write (Document.ofForest [b.explanation]).toJson := Except.ok.inj h
  have hjson : (Document.ofForest [a.explanation]).toJson =
      (Document.ofForest [b.explanation]).toJson := by
    rcases hwrite with rfl | rfl
    · exact Json.compact_injective htext
    · exact Json.pretty_injective htext
  have hforest := Document.forest_eq_of_toJson_eq hjson
  rw [Document.forest_ofForest, Document.forest_ofForest] at hforest
  exact (List.cons.inj hforest).1

/-- **The explanation loses nothing of the selector.** If the explanations of two well-formed groups
    have the same JSON text, on one line or over several, the groups are equal up to prefixes that
    say nothing. Names and literals may be anything, but for bars in the names of types and in their
    prefixes. -/
theorem normalize_eq_of_json_explain_eq {a b : Group} (ha : a.WellFormed) (hb : b.WellFormed)
    (hbarA : a.BarFree) (hbarB : b.BarFree) {write : JsonValue → String}
    (hwrite : write = JsonValue.compact ∨ write = JsonValue.pretty)
    (h : a.explain.map (Explainer.json write) = b.explain.map (Explainer.json write)) :
    a.normalize = b.normalize :=
  Group.normalize_eq_of_explanation_eq ⟨ha, hbarA⟩ ⟨hb, hbarB⟩ (explanation_eq_of_json_eq hwrite h)

/-- Two spellings of an empty name in any namespace, next to an empty literal. -/
theorem normalize_eq_of_json_explain_eq_empty :
    (Group.mk [.chained [.type "" (some "*")] .next (.last [.attr ⟨"a]", .equals, some ""⟩]),
        .last [.universal (some "|")]]).normalize =
      (Group.mk [.chained [.type "" (some "")] .next (.last [.attr ⟨"a]", .equals, some ""⟩]),
        .last [.universal (some "|")]]).normalize := by
  refine normalize_eq_of_json_explain_eq (by decide) (by decide) (by decide) (by decide)
    (.inl rfl) ?_
  rw [Group.explain, Group.explain, Group.explainWith_eq, Group.explainWith_eq]
  rfl

/-- A bar in the name of a type would be taken for the one behind a prefix. -/
example : (Group.mk [.last [.type "a|b" none]]).explanation =
    (Group.mk [.last [.type "b" (some "a")]]).explanation := rfl

end SelectorExplain
