import SelectorExplain.Proofs.Xml.Reader

set_option autoImplicit false

/-! # Scanning what has been rendered

A scan of rendered marks gives the marks back (`scan_render`), provided that names are names, that
no character data is empty, and that there is a tag between any two pieces of character data.
Escapes take care of the rest: no bracket in a text and no quote in a value ends it too early. -/

namespace SelectorExplain

namespace Xml

/-! ## Escapes -/

/-- A character that is no entity is read as itself. -/
theorem unescape_cons {c : Char} (hc : c ≠ '&') (rest : List Char) :
    unescape (c :: rest) = (unescape rest).map (c :: ·) := by
  rw [unescape]
  all_goals simp_all

theorem unescape_textChar (c : Char) (rest : List Char) :
    unescape ((textChar c).toList ++ rest) = (unescape rest).map (c :: ·) := by
  unfold textChar
  split
  · rfl
  · rfl
  · rfl
  · next hamp _ _ => simpa using unescape_cons hamp rest

theorem unescape_valueChar (c : Char) (rest : List Char) :
    unescape ((valueChar c).toList ++ rest) = (unescape rest).map (c :: ·) := by
  unfold valueChar
  split
  · rfl
  · rfl
  · rfl
  · rfl
  · rfl
  · next hamp _ _ _ _ => simpa using unescape_cons hamp rest

/-- What is escaped character by character is read back if each character is. -/
theorem unescape_join {escape : Char → String}
    (h : ∀ c rest, unescape ((escape c).toList ++ rest) = (unescape rest).map (c :: ·))
    (chars : List Char) : unescape (String.join (chars.map escape)).toList = some chars := by
  rw [String.toList_join]
  induction chars with
  | nil => rfl
  | cons c chars ih => rw [List.map_cons, List.flatMap_cons, h, ih]; rfl

theorem unescape_escapeText (s : String) : unescape (escapeText s).toList = some s.toList :=
  unescape_join unescape_textChar s.toList

theorem unescape_escapeValue (s : String) : unescape (escapeValue s).toList = some s.toList :=
  unescape_join unescape_valueChar s.toList

/-- What is escaped character by character avoids a character if all escapes do. -/
theorem notMem_join {escape : Char → String} {x : Char} (h : ∀ c, x ∉ (escape c).toList)
    (chars : List Char) : x ∉ (String.join (chars.map escape)).toList := by
  intro hx
  rw [String.toList_join, List.mem_flatMap] at hx
  obtain ⟨_, hs, hx⟩ := hx
  obtain ⟨c, -, rfl⟩ := List.mem_map.1 hs
  exact h c hx

theorem bracket_notMem_escapeText (s : String) : '<' ∉ (escapeText s).toList := by
  refine notMem_join (fun c => ?_) s.toList
  unfold textChar
  split
  · decide
  · decide
  · decide
  · next _ hbracket _ => simpa using Ne.symm hbracket

theorem quote_notMem_escapeValue (s : String) : '"' ∉ (escapeValue s).toList := by
  refine notMem_join (fun c => ?_) s.toList
  unfold valueChar
  split
  · decide
  · decide
  · decide
  · decide
  · decide
  · next _ _ _ _ hquote => simpa using Ne.symm hquote

theorem escapeText_ne_nil {s : String} (h : s ≠ "") : (escapeText s).toList ≠ [] := by
  intro hempty
  have hread := unescape_escapeText s
  rw [hempty] at hread
  exact h (String.toList_eq_nil_iff.1 (Option.some.inj hread).symm)

/-! ## Tags -/

/-- A run of characters ends where one comes that does not belong to it. -/
theorem run_append {p : Char → Bool} {run : List Char} (hrun : ∀ c ∈ run, p c = true)
    (rest : List Char) (hrest : ∀ c ∈ rest.head?, p c = false) :
    (run ++ rest).takeWhile p = run ∧ (run ++ rest).dropWhile p = rest := by
  rw [List.takeWhile_append_of_pos hrun, List.dropWhile_append_of_pos hrun]
  cases rest with
  | nil => simp
  | cons c rest => simp [hrest c rfl]

/-- Names of tags and attributes. -/
def IsName (s : String) : Prop := s ≠ "" ∧ s.toList.all isNameChar = true

instance (s : String) : Decidable (IsName s) := inferInstanceAs (Decidable (_ ∧ _))

theorem IsName.chars {s : String} (h : IsName s) : ∀ c ∈ s.toList, isNameChar c = true :=
  List.all_eq_true.1 h.2

theorem IsName.exists_cons {s : String} (h : IsName s) :
    ∃ c rest, s.toList = c :: rest ∧ isNameChar c = true := by
  cases hs : s.toList with
  | nil => exact absurd (String.toList_eq_nil_iff.1 hs) h.1
  | cons c rest => exact ⟨c, rest, rfl, h.chars c (by simp [hs])⟩

theorem name_append {s : String} (h : IsName s) {c : Char} (hc : isNameChar c = false)
    (rest : List Char) : name (s.toList ++ c :: rest) = some (s, c :: rest) := by
  obtain ⟨htake, hdrop⟩ := run_append h.chars (c :: rest) (by simp [hc])
  obtain ⟨first, more, hs, -⟩ := h.exists_cons
  rw [name, htake, hdrop, hs]
  dsimp only
  rw [← hs, String.ofList_toList]

theorem assignment_append {a : String × String} (h : IsName a.1) (rest : List Char) :
    assignment (a.1.toList ++ '=' :: '"' :: ((escapeValue a.2).toList ++ '"' :: rest)) =
      some (a, rest) := by
  obtain ⟨htake, hdrop⟩ := run_append (p := (· != '"'))
    (fun c hc => by simpa using ne_of_mem_of_not_mem hc (quote_notMem_escapeValue a.2))
    ('"' :: rest) (by simp)
  simp only [assignment, name_append h (by decide : isNameChar '=' = false), Option.bind_eq_bind,
    Option.bind_some, htake, hdrop, unescape_escapeValue, String.ofList_toList]

theorem isBlank_of_isNameChar {c : Char} (h : isNameChar c = true) : isBlank c = false := by
  refine Bool.eq_false_iff.2 fun hblank => ?_
  simp only [isBlank, List.mem_cons, List.not_mem_nil, or_false, decide_eq_true_eq] at hblank
  rcases hblank with rfl | rfl | rfl | rfl <;> cases h

/-- Behind a blank and in front of a name there is another attribute. -/
theorem attributesWithin_blank {start : List Char}
    (hstart : ∃ c more, start = c :: more ∧ isNameChar c = true) (b : Char) (budget : List Char) :
    attributesWithin (b :: budget) (' ' :: start) = (do
      let (a, rest) ← assignment start
      let (more, isVoid, rest) ← attributesWithin budget rest
      return (a :: more, isVoid, rest)) := by
  obtain ⟨c, more, rfl, hc⟩ := hstart
  have hdrop : (' ' :: c :: more).dropWhile isBlank = c :: more := by
    rw [List.dropWhile_cons_of_pos (by decide), List.dropWhile_cons_of_neg]
    simp [isBlank_of_isNameChar hc]
  rw [attributesWithin, hdrop]
  split
  · next heq =>
      cases heq
      cases hc
  · next heq =>
      cases heq
      cases hc
  · rfl

variable {attributes : List (String × String)}

theorem toList_attributesText_cons (a : String × String) (rest : List Char) :
    (attributesText (a :: attributes)).toList ++ rest =
      ' ' :: (a.1.toList ++ '=' :: '"' :: ((escapeValue a.2).toList ++
        '"' :: ((attributesText attributes).toList ++ rest))) := by
  simp [attributesText, String.join_cons]

theorem length_lt_attributesText (attributes : List (String × String)) (c : Char)
    (rest : List Char) :
    attributes.length < ((attributesText attributes).toList ++ c :: rest).length := by
  induction attributes with
  | nil =>
      simp only [List.length_append, List.length_cons, List.length_nil]
      omega
  | cons a attributes ih =>
      rw [toList_attributesText_cons]
      simp only [List.length_cons, List.length_append] at ih ⊢
      omega

section

variable {c : Char} {behind rest : List Char} {isVoid : Bool}

/-- Attributes are read up to the end of the tag. -/
theorem attributesWithin_attributesText (h : ∀ a ∈ attributes, IsName a.1)
    (hend : ∀ b budget, attributesWithin (b :: budget) (c :: behind) = some ([], isVoid, rest))
    {budget : List Char} (hbudget : attributes.length < budget.length) :
    attributesWithin budget ((attributesText attributes).toList ++ c :: behind) =
      some (attributes, isVoid, rest) := by
  induction attributes generalizing budget with
  | nil =>
      obtain ⟨b, budget, rfl⟩ := List.exists_cons_of_length_pos hbudget
      exact hend b budget
  | cons a attributes ih =>
      obtain ⟨b, budget, rfl⟩ := List.exists_cons_of_length_pos (Nat.zero_lt_of_lt hbudget)
      have hname : IsName a.1 := h a (by simp)
      have hmore := ih (fun a ha => h a (by simp [ha])) (Nat.lt_of_succ_lt_succ hbudget)
      obtain ⟨first, more, hfirst, hchar⟩ := hname.exists_cons
      rw [toList_attributesText_cons,
        attributesWithin_blank ⟨first, _, by rw [hfirst]; rfl, hchar⟩, assignment_append hname]
      simp [hmore]

/-- The name of a tag ends in front of its attributes, or where the tag ends. -/
theorem name_attributesText {s : String} (hs : IsName s) (hc : isNameChar c = false) :
    name (s.toList ++ ((attributesText attributes).toList ++ c :: behind)) =
      some (s, (attributesText attributes).toList ++ c :: behind) := by
  cases attributes with
  | nil => exact name_append hs hc behind
  | cons a attributes =>
      rw [toList_attributesText_cons]
      exact name_append hs (by decide) _

/-- What begins with a name is neither an end tag nor a declaration. -/
theorem tag_name {s : String} (hs : IsName s) (text : List Char) :
    tag (s.toList ++ text) = (do
      let (name, rest) ← name (s.toList ++ text)
      let (attributes, isVoid, rest) ← attributesWithin rest rest
      return (if isVoid then .void name attributes else .opening name attributes, rest)) := by
  obtain ⟨first, more, hmore, hchar⟩ := hs.exists_cons
  rw [hmore, List.cons_append, tag]
  · intro _ heq
    cases heq
    cases hchar
  · intro _ heq
    cases heq
    cases hchar

theorem tag_attributesText (isVoid : Bool) {s : String} (hs : IsName s)
    (h : ∀ a ∈ attributes, IsName a.1) (hc : isNameChar c = false)
    (hend : ∀ b budget, attributesWithin (b :: budget) (c :: behind) = some ([], isVoid, rest)) :
    tag (s.toList ++ ((attributesText attributes).toList ++ c :: behind)) =
      some (if isVoid then .void s attributes else .opening s attributes, rest) := by
  rw [tag_name hs, name_attributesText hs hc]
  simp only [Option.bind_eq_bind, Option.bind_some,
    attributesWithin_attributesText h hend (length_lt_attributesText attributes c behind)]
  rfl

end

theorem tag_closing {s : String} (hs : IsName s) (rest : List Char) :
    tag ('/' :: (s.toList ++ '>' :: rest)) = some (.closing s, rest) := by
  simp only [tag, name_append hs (by decide : isNameChar '>' = false), Option.bind_eq_bind,
    Option.bind_some]
  rfl

/-! ## Marks -/

/-- The names in a mark are names. -/
def Mark.HasNames : Mark → Prop
  | .opening name attributes | .void name attributes =>
    IsName name ∧ ∀ a ∈ attributes, IsName a.1
  | .closing name => IsName name
  | .declaration | .text _ => True

/-- A tag is read back from behind its opening bracket. -/
theorem tag_render {m : Mark} (hm : m.isText = false) (h : m.HasNames) :
    ∃ text, m.render.toList = '<' :: text ∧ ∀ rest, tag (text ++ rest) = some (m, rest) := by
  cases m with
  | text content => cases hm
  | declaration => exact ⟨_, rfl, fun rest => rfl⟩
  | opening name attributes =>
      refine ⟨name.toList ++ ((attributesText attributes).toList ++ ['>']), by simp [Mark.render],
        fun rest => ?_⟩
      have hread : tag (name.toList ++ ((attributesText attributes).toList ++ '>' :: rest)) =
          some (.opening name attributes, rest) :=
        tag_attributesText false h.1 h.2 (by decide : isNameChar '>' = false) fun _ _ => rfl
      simpa using hread
  | void name attributes =>
      refine ⟨name.toList ++ ((attributesText attributes).toList ++ ['/', '>']),
        by simp [Mark.render], fun rest => ?_⟩
      have hread : tag (name.toList ++ ((attributesText attributes).toList ++ '/' :: '>' :: rest)) =
          some (.void name attributes, rest) :=
        tag_attributesText true h.1 h.2 (by decide : isNameChar '/' = false) fun _ _ => rfl
      simpa using hread
  | closing name =>
      refine ⟨'/' :: (name.toList ++ ['>']), by simp [Mark.render], fun rest => ?_⟩
      simpa using tag_closing h rest

/-- Marks that can be told apart once they are rendered. -/
inductive Readable : List Mark → Prop
  | nil : Readable []
  | tag {m : Mark} {rest : List Mark} (hm : m.isText = false) (hnames : m.HasNames)
      (hrest : Readable rest) : Readable (m :: rest)
  | text {content : String} {rest : List Mark} (hne : content ≠ "")
      (hnext : ∀ m ∈ rest.head?, m.isText = false) (hrest : Readable rest) :
      Readable (.text content :: rest)

/-- Marks one behind the other. -/
def render (marks : List Mark) : List Char := marks.flatMap fun m => m.render.toList

/-- In front of a tag, or of nothing, stands no character data. -/
theorem Readable.starts {marks : List Mark} (h : Readable marks)
    (hstart : ∀ m ∈ marks.head?, m.isText = false) : ∀ c ∈ (render marks).head?, c = '<' := by
  cases h with
  | nil => nofun
  | tag hm hnames hrest =>
      obtain ⟨text, htext, -⟩ := tag_render hm hnames
      simp [render, htext]
  | text hne hnext hrest => cases hstart _ rfl

theorem scanWithin_render {marks : List Mark} (h : Readable marks) {budget : List Char}
    (hbudget : (render marks).length ≤ budget.length) :
    scanWithin budget (render marks) = some marks := by
  induction h generalizing budget with
  | nil => cases budget <;> rfl
  | @tag m rest hm hnames hrest ih =>
      obtain ⟨text, htext, hread⟩ := tag_render hm hnames
      have hmarks : render (m :: rest) = '<' :: (text ++ render rest) := by simp [render, htext]
      rw [hmarks] at hbudget ⊢
      cases budget with
      | nil => exact absurd hbudget (Nat.not_succ_le_zero _)
      | cons b budget =>
          -- the bracket has been paid for, so what is left suffices for the rest
          have hlength : (render rest).length ≤ budget.length := by
            simp only [List.length_cons, List.length_append] at hbudget
            omega
          simp [scanWithin, hread, ih hlength]
  | @text content rest hne hnext hrest ih =>
      have hmarks : render (.text content :: rest) =
          (escapeText content).toList ++ render rest := by
        simp [render, Mark.render]
      obtain ⟨htake, hdrop⟩ := run_append (p := (· != '<'))
        (fun c hc => by simpa using ne_of_mem_of_not_mem hc (bracket_notMem_escapeText content))
        (render rest) (fun c hc => by simp [hrest.starts hnext c hc])
      obtain ⟨c, more, hc⟩ := List.exists_cons_of_ne_nil (escapeText_ne_nil hne)
      have hbracket : c ≠ '<' :=
        ne_of_mem_of_not_mem (by simp [hc]) (bracket_notMem_escapeText content)
      rw [hmarks] at hbudget ⊢
      cases budget with
      | nil => simp [hc] at hbudget
      | cons b budget =>
          have hlength : (render rest).length ≤ budget.length := by
            simp only [hc, List.length_cons, List.length_append] at hbudget
            omega
          rw [scanWithin]
          · simp [htake, hdrop, unescape_escapeText, ih hlength]
          · simp [hc]
          · intro _ heq
            rw [hc] at heq
            cases heq
            exact hbracket rfl

theorem scan_render {marks : List Mark} (h : Readable marks) {text : String}
    (htext : text.toList = render marks) : scan text = some marks := by
  rw [scan, htext]
  exact scanWithin_render h (Nat.le_refl _)

end Xml

end SelectorExplain
