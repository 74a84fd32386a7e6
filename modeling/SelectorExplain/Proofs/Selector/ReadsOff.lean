import SelectorExplain.Selector.Text

set_option autoImplicit false

/-! # Reading names and literals off a text

The parts of a selector are written one behind the other, without anything that marks where one
ends. A way of writing *reads off* if equal texts, each followed by something that may follow there,
begin with the same value and go on equally (`ReadsOff`).

Plain names read off up to a character that no plain name has, and a literal reads off with its
closing quote, since every quote inside it has a backslash. An attribute selector then reads off
whatever comes behind it. -/

namespace SelectorExplain

/-! ## Plain names -/

/-- The characters that are not in plain names. -/
def specials : List Char :=
  [' ', ',', '>', '~', '+', '.', '#', '[', ']', '|', '*', '=', '^', '$', '"', '\\']

/-- A name that needs no escapes. -/
def PlainName (name : String) : Prop := name ≠ "" ∧ ∀ c ∈ name.toList, c ∉ specials

instance (name : String) : Decidable (PlainName name) :=
  have := List.decidableBAll (fun c => c ∉ specials) name.toList
  inferInstanceAs (Decidable (name ≠ "" ∧ ∀ c ∈ name.toList, c ∉ specials))

/-! ## Reading off -/

/-- The texts of the valid values read off, in front of anything that may end them: values with
    equal texts mean the same, and what stands behind them is equal. -/
def ReadsOff {α β : Type} (spell : α → List Char) (meaning : α → β) (valid : α → Prop)
    (ends : List Char → Prop) : Prop :=
  ∀ {a b : α} {r s : List Char}, valid a → valid b → ends r → ends s →
    spell a ++ r = spell b ++ s → meaning a = meaning b ∧ r = s

/-- A text that is empty or begins with one of some characters. -/
def EndsWith (stops : List Char) (r : List Char) : Prop := ∀ c ∈ r.head?, c ∈ stops

theorem endsWith_nil (stops : List Char) : EndsWith stops [] := by
  intro c hc
  cases hc

theorem endsWith_cons {stops : List Char} {c : Char} (h : c ∈ stops) (r : List Char) :
    EndsWith stops (c :: r) := by
  intro d hd
  cases hd
  exact h

theorem EndsWith.mono {stops more : List Char} {r : List Char} (h : EndsWith stops r)
    (hstops : stops ⊆ more) : EndsWith more r :=
  fun c hc => hstops (h c hc)

/-! ## Names and literals -/

/-- Two runs without special characters, up to the first special one. -/
theorem run_unique {a : List Char} :
    ∀ {b r s : List Char}, (∀ c ∈ a, c ∉ specials) → (∀ c ∈ b, c ∉ specials) →
      EndsWith specials r → EndsWith specials s → a ++ r = b ++ s → a = b ∧ r = s := by
  induction a with
  | nil =>
      intro b r s _ hb hr _ h
      cases b with
      | nil => exact ⟨rfl, h⟩
      | cons c b =>
          -- the rest `r` would begin inside the other run
          have hc : c ∈ specials := hr c (by rw [List.nil_append] at h; rw [h]; rfl)
          exact absurd hc (hb c (by simp))
  | cons c a ih =>
      intro b r s ha hb hr hs h
      cases b with
      | nil =>
          have hc : c ∈ specials := hs c (by rw [List.nil_append] at h; rw [← h]; rfl)
          exact absurd hc (ha c (by simp))
      | cons d b =>
          rw [List.cons_append, List.cons_append, List.cons.injEq] at h
          obtain ⟨rfl, h⟩ := h
          obtain ⟨rfl, rfl⟩ := ih (fun x hx => ha x (by simp [hx]))
            (fun x hx => hb x (by simp [hx])) hr hs h
          exact ⟨rfl, rfl⟩

theorem readsOff_name : ReadsOff String.toList id PlainName (EndsWith specials) := by
  intro a b r s ha hb hr hs h
  obtain ⟨hchars, hrest⟩ := run_unique ha.2 hb.2 hr hs h
  exact ⟨String.toList_injective hchars, hrest⟩

/-- The characters of an escaped literal. -/
def escaped (chars : List Char) : List Char :=
  chars.flatMap fun c => if c = '\\' ∨ c = '"' then ['\\', c] else [c]

/-- Escaping backslashes and then quotes is escaping both at once: the first pass puts in no quotes,
    and the second one lets backslashes be. -/
theorem toList_escapeLiteral (literal : String) :
    (escapeLiteral literal).toList = escaped literal.toList := by
  rw [escapeLiteral, toList_replaceChar, toList_replaceChar, List.flatMap_assoc, escaped]
  congr 1
  funext c
  by_cases hbackslash : c = '\\'
  · subst hbackslash
    rfl
  · by_cases hquote : c = '"'
    · subst hquote
      rfl
    · simp [hbackslash, hquote]

theorem escaped_cons_of_special {c : Char} (h : c = '\\' ∨ c = '"') (chars : List Char) :
    escaped (c :: chars) = '\\' :: c :: escaped chars := by
  rw [escaped, List.flatMap_cons, if_pos h]
  rfl

theorem escaped_cons_of_not_special {c : Char} (h : ¬(c = '\\' ∨ c = '"')) (chars : List Char) :
    escaped (c :: chars) = c :: escaped chars := by
  rw [escaped, List.flatMap_cons, if_neg h]
  rfl

/-- No escaped character can be taken for the closing quote. -/
theorem escaped_cons_ne_quote (c : Char) (chars r s : List Char) :
    escaped (c :: chars) ++ r ≠ '"' :: s := by
  intro h
  by_cases hc : c = '\\' ∨ c = '"'
  · rw [escaped_cons_of_special hc, List.cons_append] at h
    exact absurd (List.cons.inj h).1 (by decide)
  · rw [escaped_cons_of_not_special hc, List.cons_append] at h
    exact hc (.inr (List.cons.inj h).1)

theorem escaped_unique {a : List Char} :
    ∀ {b r s : List Char}, escaped a ++ '"' :: r = escaped b ++ '"' :: s → a = b ∧ r = s := by
  induction a with
  | nil =>
      intro b r s h
      cases b with
      | nil => exact ⟨rfl, (List.cons.inj h).2⟩
      | cons d b => exact absurd h.symm (escaped_cons_ne_quote d b _ _)
  | cons c a ih =>
      intro b r s h
      cases b with
      | nil => exact absurd h (escaped_cons_ne_quote c a _ _)
      | cons d b =>
          by_cases hc : c = '\\' ∨ c = '"'
          · by_cases hd : d = '\\' ∨ d = '"'
            · rw [escaped_cons_of_special hc, escaped_cons_of_special hd] at h
              simp only [List.cons_append, List.cons.injEq, true_and] at h
              obtain ⟨rfl, h⟩ := h
              obtain ⟨rfl, rfl⟩ := ih h
              exact ⟨rfl, rfl⟩
            · -- the backslash of `c` would have to be the character `d` itself
              rw [escaped_cons_of_special hc, escaped_cons_of_not_special hd] at h
              exact absurd (.inl (List.cons.inj h).1.symm) hd
          · by_cases hd : d = '\\' ∨ d = '"'
            · rw [escaped_cons_of_not_special hc, escaped_cons_of_special hd] at h
              exact absurd (.inl (List.cons.inj h).1) hc
            · rw [escaped_cons_of_not_special hc, escaped_cons_of_not_special hd] at h
              simp only [List.cons_append, List.cons.injEq] at h
              obtain ⟨rfl, h⟩ := h
              obtain ⟨rfl, rfl⟩ := ih h
              exact ⟨rfl, rfl⟩

/-- A literal reads off with its closing quote, whatever comes behind. -/
theorem readsOff_literal :
    ReadsOff (fun literal => (escapeLiteral literal).toList ++ ['"']) id (fun _ => True)
      (fun _ => True) := by
  intro a b r s _ _ _ _ h
  simp only [toList_escapeLiteral, List.append_assoc, List.singleton_append] at h
  obtain ⟨hchars, hrest⟩ := escaped_unique h
  exact ⟨String.toList_injective hchars, hrest⟩

theorem escapeLiteral_inj {a b : String} (h : escapeLiteral a = escapeLiteral b) : a = b := by
  have hquoted : ((escapeLiteral a).toList ++ ['"']) ++ [] =
      ((escapeLiteral b).toList ++ ['"']) ++ [] := by
    rw [h]
  exact (readsOff_literal trivial trivial trivial trivial hquoted).1

/-! ## Attribute selectors -/

/-- An operator with the quote behind it. -/
def Operator.opening (op : Operator) : List Char :=
  ((op.punctuation.map fun p => p ++ "\"").getD "").toList

theorem readsOff_opening :
    ReadsOff Operator.opening id (fun op => op.takesLiteral = true) (fun _ => True) := by
  intro a b r s ha hb _ _ h
  cases a <;> cases b <;>
    simp_all [Operator.opening, Operator.punctuation, Operator.takesLiteral]

theorem Operator.eq_present {op : Operator} (h : op.takesLiteral = false) : op = .present := by
  cases op with
  | present => rfl
  | startsWith | endsWith | contains | equals | includes | dashMatch =>
      exact absurd h.symm Bool.false_ne_true

theorem Operator.opening_head {op : Operator} (h : op.takesLiteral = true) :
    ∃ c rest, op.opening = c :: rest ∧ c ∈ specials ∧ c ≠ ']' := by
  cases op with
  | present => exact absurd h (by decide)
  | startsWith => exact ⟨'^', _, rfl, by decide, by decide⟩
  | endsWith => exact ⟨'$', _, rfl, by decide, by decide⟩
  | contains => exact ⟨'*', _, rfl, by decide, by decide⟩
  | equals => exact ⟨'=', _, rfl, by decide, by decide⟩
  | includes => exact ⟨'~', _, rfl, by decide, by decide⟩
  | dashMatch => exact ⟨'|', _, rfl, by decide, by decide⟩

/-- What stands behind the name of a well-formed attribute selector. -/
def Attribute.comparison (a : Attribute) : List Char :=
  match a.literal with
  | none => [']']
  | some literal => a.operator.opening ++ (((escapeLiteral literal).toList ++ ['"']) ++ [']'])

theorem Attribute.WellFormed.toList_text {a : Attribute} (h : a.WellFormed) :
    a.text.toList = '[' :: (a.name.toList ++ a.comparison) := by
  obtain ⟨name, op, literal⟩ := a
  cases literal with
  | none => cases op <;> simp [text, comparison, Operator.punctuation]
  | some literal =>
      cases op with
      | present => exact absurd h.symm Bool.false_ne_true
      | startsWith | endsWith | contains | equals | includes | dashMatch =>
          simp [text, comparison, Operator.opening, Operator.punctuation]

theorem Attribute.WellFormed.comparison_head {a : Attribute} (h : a.WellFormed) (r : List Char) :
    EndsWith specials (a.comparison ++ r) := by
  obtain ⟨name, op, literal⟩ := a
  cases literal with
  | none => exact endsWith_cons (by decide) _
  | some literal =>
      obtain ⟨c, rest, hopening, hc, -⟩ := Operator.opening_head h.symm
      simp only [comparison, hopening, List.cons_append]
      exact endsWith_cons hc _

/-- A literal that is compared with cannot be overlooked. -/
theorem bracket_ne_opening {op : Operator} (h : op.takesLiteral = true) (r s : List Char) :
    ']' :: r ≠ op.opening ++ s := by
  obtain ⟨c, rest, hopening, -, hc⟩ := Operator.opening_head h
  rw [hopening]
  exact fun heq => hc (List.cons.inj heq).1.symm

theorem readsOff_comparison :
    ReadsOff Attribute.comparison (fun a => (a.operator, a.literal)) Attribute.WellFormed
      (fun _ => True) := by
  intro ⟨nameA, opA, literalA⟩ ⟨nameB, opB, literalB⟩ r s hA hB _ _ h
  cases literalA with
  | none =>
      cases literalB with
      | none =>
          have hopA : opA = .present := Operator.eq_present hA.symm
          have hopB : opB = .present := Operator.eq_present hB.symm
          exact ⟨by rw [hopA, hopB], (List.cons.inj h).2⟩
      | some literalB =>
          simp only [Attribute.comparison, List.append_assoc] at h
          exact absurd h (bracket_ne_opening hB.symm _ _)
  | some literalA =>
      cases literalB with
      | none =>
          simp only [Attribute.comparison, List.append_assoc] at h
          exact absurd h.symm (bracket_ne_opening hA.symm _ _)
      | some literalB =>
          simp only [Attribute.comparison, List.append_assoc] at h
          obtain ⟨hop, hbehind⟩ := readsOff_opening hA.symm hB.symm trivial trivial h
          have hquoted : ((escapeLiteral literalA).toList ++ ['"']) ++ ']' :: r =
              ((escapeLiteral literalB).toList ++ ['"']) ++ ']' :: s := by
            simpa using hbehind
          obtain ⟨hliteral, hend⟩ := readsOff_literal trivial trivial trivial trivial hquoted
          cases hop
          cases hliteral
          exact ⟨rfl, (List.cons.inj hend).2⟩

theorem readsOff_attribute :
    ReadsOff (fun a : Attribute => a.text.toList) id
      (fun a => PlainName a.name ∧ a.WellFormed) (fun _ => True) := by
  intro a b r s ⟨hplainA, hA⟩ ⟨hplainB, hB⟩ _ _ h
  dsimp only at h
  rw [hA.toList_text, hB.toList_text] at h
  simp only [List.cons_append, List.append_assoc, List.cons.injEq, true_and] at h
  obtain ⟨hname, h⟩ := readsOff_name hplainA hplainB (hA.comparison_head r) (hB.comparison_head s) h
  obtain ⟨hcomparison, hrest⟩ := readsOff_comparison hA hB trivial trivial h
  obtain ⟨nameA, opA, literalA⟩ := a
  obtain ⟨nameB, opB, literalB⟩ := b
  cases hname
  cases hcomparison
  exact ⟨rfl, hrest⟩

end SelectorExplain
