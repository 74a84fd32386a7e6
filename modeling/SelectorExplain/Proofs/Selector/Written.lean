import Mathlib.Data.List.Forall2
import SelectorExplain.Proofs.Explainer.Rendering
import SelectorExplain.Proofs.Selector.ReadsOff

set_option autoImplicit false

/-! # The written form of a selector

The rules by which a tree is written as CSS, one rule for each way in which a part may look:
`Group.WrittenAs g text` says that `text` is `g` by these rules. They say nothing of documents, and
of literals and prefixes they say character by character and case by case what is written.

A well-formed tree has one written form, and that is its text (`Sequence.writtenAs_iff`). So the
text that is gathered from the explanation of a group is its only written form. -/

namespace SelectorExplain

/-! ## The rules -/

/-- The characters of a literal as they stand between double quotes. -/
inductive LiteralWrittenAs : List Char → List Char → Prop
  | nil : LiteralWrittenAs [] []
  | backslash {chars form : List Char} (h : LiteralWrittenAs chars form) :
      LiteralWrittenAs ('\\' :: chars) ('\\' :: '\\' :: form)
  | quote {chars form : List Char} (h : LiteralWrittenAs chars form) :
      LiteralWrittenAs ('"' :: chars) ('\\' :: '"' :: form)
  | plain {c : Char} {chars form : List Char} (hbackslash : c ≠ '\\') (hquote : c ≠ '"')
      (h : LiteralWrittenAs chars form) : LiteralWrittenAs (c :: chars) (c :: form)

/-- A namespace prefix with its bar. An absent one, an empty one and `*` are not written. -/
inductive PrefixWrittenAs : Option String → String → Prop
  | absent : PrefixWrittenAs none ""
  | empty : PrefixWrittenAs (some "") ""
  | any : PrefixWrittenAs (some "*") ""
  | named {p : String} (hempty : p ≠ "") (hany : p ≠ "*") : PrefixWrittenAs (some p) (p ++ "|")

inductive Simple.WrittenAs : Simple → String → Prop
  | universal {space : Option String} {form : String} (h : PrefixWrittenAs space form) :
      WrittenAs (.universal space) (form ++ "*")
  | type {name : String} {space : Option String} {form : String} (h : PrefixWrittenAs space form) :
      WrittenAs (.type name space) (form ++ name)
  | id (name : String) : WrittenAs (.id name) ("#" ++ name)
  | className (name : String) : WrittenAs (.className name) ("." ++ name)
  | present (name : String) : WrittenAs (.attr ⟨name, .present, none⟩) ("[" ++ name ++ "]")
  | compare (name : String) {op : Operator} {sign literal : String} {form : List Char}
      (hsign : op.punctuation = some sign) (h : LiteralWrittenAs literal.toList form) :
      WrittenAs (.attr ⟨name, op, some literal⟩)
        ("[" ++ name ++ sign ++ "\"" ++ String.ofList form ++ "\"]")

/-- Simple selectors stand one behind the other, and a combinator between two sequences. -/
inductive Sequence.WrittenAs : Sequence → String → Prop
  | last {simples : List Simple} {forms : List String}
      (h : List.Forall₂ Simple.WrittenAs simples forms) :
      WrittenAs (.last simples) (String.join forms)
  | chained {simples : List Simple} {forms : List String} (kind : CombinatorKind)
      {target : Sequence} {behind : String} (h : List.Forall₂ Simple.WrittenAs simples forms)
      (htarget : WrittenAs target behind) :
      WrittenAs (.chained simples kind target) (String.join forms ++ kind.punctuation ++ behind)

/-- Sequences stand behind each other with a comma and a space between each two. -/
inductive Group.WrittenAs : Group → String → Prop
  | sequences {sequences : List Sequence} {forms : List String}
      (h : List.Forall₂ Sequence.WrittenAs sequences forms) :
      WrittenAs ⟨sequences⟩ (", ".intercalate forms)

/-! ## Each part has one written form -/

theorem literalWrittenAs_escaped (chars : List Char) :
    LiteralWrittenAs chars (escaped chars) := by
  induction chars with
  | nil => exact .nil
  | cons c chars ih =>
      by_cases hc : c = '\\' ∨ c = '"'
      · rw [escaped_cons_of_special hc]
        rcases hc with rfl | rfl
        · exact .backslash ih
        · exact .quote ih
      · rw [escaped_cons_of_not_special hc]
        obtain ⟨hbackslash, hquote⟩ := not_or.1 hc
        exact .plain hbackslash hquote ih

theorem LiteralWrittenAs.eq_escaped {chars form : List Char} (h : LiteralWrittenAs chars form) :
    form = escaped chars := by
  induction h with
  | nil => rfl
  | backslash h ih => rw [escaped_cons_of_special (.inl rfl), ih]
  | quote h ih => rw [escaped_cons_of_special (.inr rfl), ih]
  | plain hbackslash hquote h ih =>
      rw [escaped_cons_of_not_special (not_or.2 ⟨hbackslash, hquote⟩), ih]

theorem literalWrittenAs_iff {literal : String} {form : List Char} :
    LiteralWrittenAs literal.toList form ↔ form = (escapeLiteral literal).toList := by
  rw [toList_escapeLiteral]
  constructor
  · exact LiteralWrittenAs.eq_escaped
  · rintro rfl
    exact literalWrittenAs_escaped _

theorem PrefixWrittenAs.append_eq_qualify {space : Option String} {form : String}
    (h : PrefixWrittenAs space form) (name : String) : form ++ name = qualify space name := by
  cases h with
  | absent => exact String.empty_append
  | empty => exact String.empty_append
  | any => exact String.empty_append
  | named hempty hany => rw [qualify, if_neg (not_or.2 ⟨hempty, hany⟩)]

theorem exists_prefixWrittenAs (space : Option String) : ∃ form, PrefixWrittenAs space form := by
  cases space with
  | none => exact ⟨_, .absent⟩
  | some p =>
      by_cases hempty : p = ""
      · exact ⟨"", hempty ▸ .empty⟩
      · by_cases hany : p = "*"
        · exact ⟨"", hany ▸ .any⟩
        · exact ⟨_, .named hempty hany⟩

theorem Simple.WrittenAs.eq_text {s : Simple} {form : String} (h : s.WrittenAs form) :
    form = s.text := by
  cases h with
  | universal h => exact h.append_eq_qualify "*"
  | type h => exact h.append_eq_qualify _
  | id name => rfl
  | className name => rfl
  | present name => rfl
  | compare name hsign h =>
      rw [text, Attribute.text, hsign, literalWrittenAs_iff.1 h, String.ofList_toList]

theorem Simple.WellFormed.writtenAs_text {s : Simple} (h : s.WellFormed) :
    s.WrittenAs s.text := by
  cases s with
  | universal space =>
      obtain ⟨form, hform⟩ := exists_prefixWrittenAs space
      rw [text, ← hform.append_eq_qualify]
      exact .universal hform
  | type name space =>
      obtain ⟨form, hform⟩ := exists_prefixWrittenAs space
      rw [text, ← hform.append_eq_qualify]
      exact .type hform
  | id name => exact .id name
  | className name => exact .className name
  | attr test =>
      -- the literal is there exactly when the operator has a sign to put in front of it
      obtain ⟨name, op, literal⟩ := test
      cases literal with
      | none =>
          obtain rfl : op = .present := Operator.eq_present h.symm
          exact .present name
      | some literal =>
          have hform := literalWrittenAs_iff.2 (rfl : (escapeLiteral literal).toList = _)
          obtain ⟨sign, hsign⟩ : ∃ sign, op.punctuation = some sign := by
            cases op with
            | present => exact absurd h.symm Bool.false_ne_true
            | startsWith | endsWith | contains | equals | includes | dashMatch => exact ⟨_, rfl⟩
          have hcompare := WrittenAs.compare name hsign hform
          rw [String.ofList_toList] at hcompare
          rw [text, Attribute.text, hsign]
          exact hcompare

theorem Simple.WellFormed.writtenAs_iff {s : Simple} (h : s.WellFormed) (form : String) :
    s.WrittenAs form ↔ form = s.text := by
  constructor
  · exact WrittenAs.eq_text
  · rintro rfl
    exact h.writtenAs_text

/-- Parts that have one form each have one list of forms. -/
theorem forall₂_iff_eq_map {α β : Type} {R : α → β → Prop} {f : α → β} {items : List α}
    (h : ∀ a ∈ items, ∀ b, R a b ↔ b = f a) (forms : List β) :
    List.Forall₂ R items forms ↔ forms = items.map f := by
  induction items generalizing forms with
  | nil => simp
  | cons a items ih =>
      have hrest := ih fun x hx => h x (by simp [hx])
      cases forms with
      | nil => simp
      | cons b forms =>
          rw [List.forall₂_cons, h a (by simp), hrest, List.map_cons, List.cons.injEq]

theorem Sequence.WellFormed.writtenAs_iff {s : Sequence} (h : s.WellFormed) (form : String) :
    s.WrittenAs form ↔ form = s.text := by
  induction s generalizing form with
  | last simples =>
      have hforms := forall₂_iff_eq_map fun s hs => Simple.WellFormed.writtenAs_iff (h.2 s hs)
      constructor
      · rintro ⟨hsimples⟩
        rw [text, (hforms _).1 hsimples]
      · rintro rfl
        exact .last ((hforms _).2 rfl)
  | chained simples kind target ih =>
      obtain ⟨⟨-, hsimples⟩, htarget⟩ := h
      have hforms :=
        forall₂_iff_eq_map fun s hs => Simple.WellFormed.writtenAs_iff (hsimples s hs)
      constructor
      · rintro (_ | ⟨_, hwritten, hbehind⟩)
        rw [text, (hforms _).1 hwritten, (ih htarget _).1 hbehind]
      · rintro rfl
        exact .chained kind ((hforms _).2 rfl) ((ih htarget _).2 rfl)

/-! ## The text of an explanation -/

/-- **The text of an explanation is the written form.** Explaining a well-formed group succeeds, and
    the text that is gathered from its document is what the group is printed as without a document,
    and the one text that the rules allow. -/
theorem Group.WellFormed.text_explain_writtenAs {g : Group} (h : g.WellFormed) :
    ∃ x, g.explain = .ok x ∧ x.text = g.text ∧ ∀ form, g.WrittenAs form ↔ form = x.text := by
  have hexplain : g.explain = .ok (.ofForest {} 0 [g.explanation]) := g.explainWith_eq {}
  have htext : (Explainer.ofForest {} 0 [g.explanation]).text = g.text := by
    have hspelled := g.text_explain
    rw [hexplain] at hspelled
    exact Except.ok.inj hspelled
  refine ⟨_, hexplain, htext, fun form => ?_⟩
  have hforms := forall₂_iff_eq_map fun s hs => Sequence.WellFormed.writtenAs_iff (h s hs)
  rw [htext]
  constructor
  · rintro ⟨hsequences⟩
    rw [text, (hforms _).1 hsequences]
    rfl
  · rintro rfl
    exact .sequences ((hforms _).2 rfl)

/-- A prefix that is written and one that is not, an escaped literal, and two sequences. -/
theorem Group.text_explain_writtenAs_prefixed :
    (Group.mk [.chained [.type "a" (some "svg"), .attr ⟨"b", .equals, some "\"\\"⟩] .child
        (.last [.universal (some "*")]), .last [.className "c"]]).WellFormed ∧
    ∃ x, (Group.mk [.chained [.type "a" (some "svg"), .attr ⟨"b", .equals, some "\"\\"⟩] .child
        (.last [.universal (some "*")]), .last [.className "c"]]).explain = .ok x ∧
      x.text = "svg|a[b=\"\\\"\\\\\"] > *, .c" ∧
      ∀ form, (Group.mk [.chained [.type "a" (some "svg"), .attr ⟨"b", .equals, some "\"\\"⟩]
        .child (.last [.universal (some "*")]), .last [.className "c"]]).WrittenAs form ↔
          form = x.text := by
  refine ⟨by decide, ?_⟩
  obtain ⟨x, hexplain, htext, hform⟩ := Group.WellFormed.text_explain_writtenAs
    (g := ⟨[.chained [.type "a" (some "svg"), .attr ⟨"b", .equals, some "\"\\"⟩] .child
      (.last [.universal (some "*")]), .last [.className "c"]]⟩) (by decide)
  exact ⟨x, hexplain, htext.trans (by decide), hform⟩

end SelectorExplain
