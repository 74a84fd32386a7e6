import SelectorExplain.Proofs.Json.Grammar

set_option autoImplicit false

/-! # Passing over any value

Whatever a text is, if it is JSON then it is passed over as a whole, however deeply its brackets are
nested (`Valid.gives_skipValue`). The loop that does so keeps the open brackets in a list; a value
inside leaves that list as it was (`Passes`), and so do the items of a list and the members of an
object up to the bracket that closes them. -/

namespace SelectorExplain

namespace Json

variable {α : Type}

/-! ## Strings -/

theorem Literal.skipStringBody {t : List Char} (h : Literal t) (rest : List Char) (p : Position) :
    ∃ q, skipStringBody (t ++ '"' :: rest) p = .ok ⟨rest, q⟩ := by
  induction h generalizing p with
  | nil => exact ⟨p.add 1, rfl⟩
  | @plain c t hquote hescape hc _ ih =>
      obtain ⟨q, hq⟩ := ih (p.after c)
      refine ⟨q, ?_⟩
      rw [List.cons_append, Json.skipStringBody, if_neg (by omega), hq]
      all_goals simp_all
  | @letter e c t he _ ih =>
      obtain ⟨q, hq⟩ := ih (p.add 2)
      refine ⟨q, ?_⟩
      have hu := ne_of_escaped? he
      simp only [List.cons_append]
      rw [Json.skipStringBody, he]
      · exact hq
      all_goals simp_all
  | @unit a b c d u t hu _ ih =>
      obtain ⟨q, hq⟩ := ih (p.add 6)
      refine ⟨q, ?_⟩
      simp [Json.skipStringBody, hu, hq]

theorem Literal.gives_skipString {t : List Char} (h : Literal t) {behind : List Char → Prop} :
    Gives skipString (t ++ ['"']) (.ok ()) behind := by
  refine ⟨fun rest p _ => ?_⟩
  obtain ⟨q, hq⟩ := h.skipStringBody rest p
  rw [List.append_assoc, List.singleton_append, skipString]
  dsimp only
  rw [hq]
  exact ⟨rfl, rfl⟩

/-! ## Numbers -/

section

variable {f : Option Char → Decoder α} {t : List Char} {r : Except Problem α}
  {behind : List Char → Prop}

/-- Looking at a character of the text itself. -/
theorem Gives.peek {c : Char} (h : Gives (f (some c)) (c :: t) r behind) :
    Gives (Decoder.peek >>= f) (c :: t) r behind :=
  ⟨fun rest p hrest => h.fits rest p hrest⟩

theorem run_peek_bind (f : Option Char → Decoder α) (c : Cursor) :
    (Decoder.peek >>= f) c = f c.rest.head? c := rfl

/-- Looking at what stands behind the text. -/
theorem Gives.peek_behind (h : ∀ c : Option Char, (∀ rest, behind rest → rest.head? = c →
    ∀ p, Fits r rest (f c ⟨rest, p⟩))) : Gives (Decoder.peek >>= f) [] r behind :=
  ⟨fun rest p hrest => h rest.head? rest hrest rfl p⟩

end

theorem Digits.gives {t : List Char} (h : Digits t) {next : List Nat → Decoder α} {u : List Char}
    {r : Except Problem α} {behind : List Char → Prop}
    (hnext : ∀ ds, ds ≠ [] → Gives (next ds) u r behind)
    (hu : ∀ rest, behind rest → NoDigit (u ++ rest)) :
    Gives (digits >>= next) (t ++ u) r behind := by
  refine (gives_digits h.2).bind (hnext _ ?_) hu
  simpa using h.1

/-- Going on behind digits, of which there is one at least. -/
theorem Digits.gives_nonempty {t : List Char} (h : Digits t) {more : Decoder α} {u : List Char}
    {r : Except Problem α} {behind : List Char → Prop} (hmore : Gives more u r behind)
    (hu : ∀ rest, behind rest → NoDigit (u ++ rest)) :
    Gives (digits >>= fun ds => match ds with
      | [] => Decoder.failNext .invalidNumber
      | _ => more) (t ++ u) r behind := by
  refine h.gives (fun ds hds => ?_) hu
  split
  · exact absurd rfl hds
  · exact hmore

/-- Neither a fraction nor an exponent begins with a digit. -/
theorem noDigit_tail {fraction exponent : List Char} (hfraction : FractionText fraction)
    (hexponent : ExponentText exponent) {rest : List Char} (hrest : Delimited rest) :
    NoDigit ((fraction ++ exponent) ++ rest) := by
  intro c hc
  rcases hfraction with rfl | ⟨ds, -, rfl⟩
  · rcases hexponent with rfl | ⟨e, he, sign, -, ds, -, rfl⟩
    · exact hrest.noDigit c hc
    · simp only [List.mem_cons, List.not_mem_nil, or_false] at he
      rcases he with rfl | rfl <;> cases hc <;> rfl
  · cases hc
    rfl

/-- Reads an exponent from its letter on, if there is one. -/
def exponentFrom : Option Char → Decoder Unit
  | some 'e' | some 'E' => do
    Decoder.eat
    skipExponent
  | _ => pure ()

theorem gives_skipExponent {sign ds : List Char} (hsign : sign ∈ [[], ['+'], ['-']])
    (hds : Digits ds) : Gives skipExponent (sign ++ ds) (.ok ()) Delimited := by
  have hdigits := hds.gives_nonempty (gives_pure ()) fun rest (hrest : Delimited rest) =>
    hrest.noDigit
  rw [List.append_nil] at hdigits
  simp only [List.mem_cons, List.not_mem_nil, or_false] at hsign
  rcases hsign with rfl | rfl | rfl
  · obtain ⟨c, ds, rfl⟩ := List.exists_cons_of_ne_nil hds.1
    have hc : c.isDigit = true := hds.2 c (by simp)
    refine Gives.peek ?_
    split
    · next heq => cases heq; cases hc
    · next heq => cases heq; cases hc
    · exact hdigits
  · exact Gives.peek (Gives.eat hdigits)
  · exact Gives.peek (Gives.eat hdigits)

theorem ExponentText.gives {t : List Char} (h : ExponentText t) :
    Gives (Decoder.peek >>= exponentFrom) t (.ok ()) Delimited := by
  rcases h with rfl | ⟨e, he, sign, hsign, ds, hds, rfl⟩
  · refine Gives.peek_behind fun c rest hrest hc p => ?_
    unfold exponentFrom
    split
    · exact absurd (hrest 'e' hc) (by decide)
    · exact absurd (hrest 'E' hc) (by decide)
    · exact ⟨rfl, rfl⟩
  · simp only [List.mem_cons, List.not_mem_nil, or_false] at he
    rcases he with rfl | rfl <;> exact Gives.peek (Gives.eat (gives_skipExponent hsign hds))

theorem gives_skipNumberTail {fraction exponent : List Char} (hfraction : FractionText fraction)
    (hexponent : ExponentText exponent) :
    Gives skipNumberTail (fraction ++ exponent) (.ok ()) Delimited := by
  rcases hfraction with rfl | ⟨ds, hds, rfl⟩
  · rcases hexponent with rfl | ⟨e, he, sign, hsign, ds, hds, rfl⟩
    · refine Gives.peek_behind fun c rest hrest hc p => ?_
      split
      · exact absurd (hrest '.' hc) (by decide)
      · exact absurd (hrest 'e' hc) (by decide)
      · exact absurd (hrest 'E' hc) (by decide)
      · exact ⟨rfl, rfl⟩
    · simp only [List.mem_cons, List.not_mem_nil, or_false] at he
      rcases he with rfl | rfl <;> exact Gives.peek (Gives.eat (gives_skipExponent hsign hds))
  · have hmore := hds.gives_nonempty hexponent.gives fun rest (hrest : Delimited rest) =>
      noDigit_tail (.inl rfl) hexponent hrest
    exact Gives.peek (Gives.eat hmore)

theorem gives_skipNumber {whole fraction exponent : List Char} (hwhole : WholeText whole)
    (hfraction : FractionText fraction) (hexponent : ExponentText exponent) :
    Gives skipNumber (whole ++ (fraction ++ exponent)) (.ok ()) Delimited := by
  have htail := gives_skipNumberTail hfraction hexponent
  rcases hwhole with rfl | ⟨hds, hzero⟩
  · refine Gives.peek (Gives.eat ⟨fun rest p hrest => ?_⟩)
    have hnext := noDigit_tail hfraction hexponent hrest
    show Fits _ _ ((Decoder.peek >>= _) ⟨(fraction ++ exponent) ++ rest, _⟩)
    rw [run_peek_bind]
    cases hc : ((fraction ++ exponent) ++ rest).head? with
    | none => exact htail.fits rest _ hrest
    | some c =>
        dsimp only
        rw [if_neg (by simp [hnext c hc])]
        exact htail.fits rest _ hrest
  · have hnumber := hds.gives_nonempty htail fun rest (hrest : Delimited rest) =>
      noDigit_tail hfraction hexponent hrest
    obtain ⟨c, more, rfl⟩ := List.exists_cons_of_ne_nil hds.1
    refine Gives.peek ?_
    split
    · next heq => exact absurd heq hzero
    · exact hnumber

variable {w w' t : List Char}

/-! ## Starts of values -/

theorem gives_skipStart_word (hw : Blanks w) (h : t ∈ words) {behind : List Char → Prop} :
    Gives skipStart (w ++ t) (.ok none) behind := by
  simp only [words, List.mem_cons, List.not_mem_nil, or_false] at h
  rcases h with rfl | rfl | rfl
  · refine Gives.token hw (by decide) (Gives.eat ?_)
    exact (gives_word ['u', 'l', 'l']).andReturn fun _ => none
  · refine Gives.token hw (by decide) (Gives.eat ?_)
    exact (gives_word ['r', 'u', 'e']).andReturn fun _ => none
  · refine Gives.token hw (by decide) (Gives.eat ?_)
    exact (gives_word ['a', 'l', 's', 'e']).andReturn fun _ => none

theorem gives_skipStart_string (hw : Blanks w) (h : Literal t) {behind : List Char → Prop} :
    Gives skipStart (w ++ '"' :: (t ++ ['"'])) (.ok none) behind := by
  refine Gives.token hw (by decide) (Gives.eat ?_)
  exact h.gives_skipString.andReturn fun _ => none

theorem gives_skipStart_number (hw : Blanks w) (h : NumberText t) :
    Gives skipStart (w ++ t) (.ok none) Delimited := by
  obtain ⟨hsign, hwhole, hfraction, hexponent⟩ := h
  have hnumber := (gives_skipNumber hwhole hfraction hexponent).andReturn
    fun _ => (none : Option Bracket)
  simp only [List.mem_cons, List.not_mem_nil, or_false] at hsign
  rcases hsign with rfl | rfl
  · obtain ⟨c, more, rfl, hc⟩ := hwhole.exists_digit
    obtain ⟨_, _, hstart, hblank, -⟩ := startsItem_digit hc []
    cases hstart
    refine Gives.token hw hblank ?_
    dsimp only
    split
    -- no digit begins anything else
    iterate 7 cases hc
    rw [if_pos hc]
    exact hnumber
  · refine Gives.token hw (by decide) (Gives.eat ?_)
    exact hnumber

/-! ## Inside brackets -/

/-- Goes on behind the start of a value: inside its bracket, or behind it if it has none. -/
def skipOn (budget : List Char) (opened : List Bracket) : Option Bracket → Decoder Unit
  | some inner => skipInside budget false (inner :: opened)
  | none => skipInside budget true opened

/-- A bracket that closes. -/
theorem skipInside_close (hw : Blanks w) (round : Char) (budget : List Char) (started : Bool)
    (bracket : Bracket) (opened : List Bracket) (rest : List Char) (p : Position) :
    ∃ q, skipInside (round :: budget) started (bracket :: opened)
        ⟨w ++ bracket.closing :: rest, p⟩ = skipInside budget true opened ⟨rest, q⟩ := by
  have hclosing : isBlank bracket.closing = false := by cases bracket <;> rfl
  rw [skipInside]
  obtain ⟨q, hq⟩ := run_token_bind hw hclosing rest p
  rw [hq]
  dsimp only
  rw [if_pos rfl]
  exact ⟨_, rfl⟩

/-- Passes over the next item of a list or member of an object, and goes on. -/
def skipEntry (budget : List Char) (opened : List Bracket) : Bracket → Decoder Unit
  | .list => skipStart >>= skipOn budget (.list :: opened)
  | .object => skipKey >>= fun _ => skipStart >>= skipOn budget (.object :: opened)

/-- Another item or member, behind a comma unless it is the first one. -/
theorem skipInside_lead (hw : Blanks w) (hw' : Blanks w') {bracket : Bracket} {c : Char}
    (hc : isBlank c = false) (hopen : c ≠ bracket.closing) (first : Bool) (round : Char)
    (budget : List Char) (opened : List Bracket) (t : List Char) (p : Position) :
    ∃ w'' q, Blanks w'' ∧ w''.length ≤ (lead first w w').length ∧
      skipInside (round :: budget) (!first) (bracket :: opened) ⟨lead first w w' ++ c :: t, p⟩ =
        skipEntry budget opened bracket ⟨w'' ++ c :: t, q⟩ := by
  cases first with
  | true =>
      have hrun : ∃ q, skipInside (round :: budget) false (bracket :: opened) ⟨w ++ c :: t, p⟩ =
          skipEntry budget opened bracket ⟨c :: t, q⟩ := by
        rw [skipInside]
        obtain ⟨q, hq⟩ := run_token_bind hw hc t p
        rw [hq]
        dsimp only
        rw [if_neg hopen]
        exact ⟨q, by cases bracket <;> rfl⟩
      obtain ⟨q, hq⟩ := hrun
      exact ⟨[], q, blanks_nil, Nat.zero_le _, hq⟩
  | false =>
      have hrun : ∃ q, skipInside (round :: budget) true (bracket :: opened)
          ⟨w ++ ',' :: (w' ++ c :: t), p⟩ = skipEntry budget opened bracket ⟨w' ++ c :: t, q⟩ := by
        rw [skipInside]
        obtain ⟨q, hq⟩ := run_token_bind hw (show isBlank ',' = false from rfl) (w' ++ c :: t) p
        rw [hq]
        dsimp only
        rw [if_neg (by cases bracket <;> decide)]
        exact ⟨q.after ',', by cases bracket <;> rfl⟩
      obtain ⟨q, hq⟩ := hrun
      refine ⟨w', q, hw', ?_, ?_⟩
      · simp only [lead, Bool.false_eq_true, if_false, List.length_append, List.length_cons]
        omega
      · rw [lead, if_neg Bool.false_ne_true, List.append_assoc, List.cons_append]
        exact hq

/-- A key is passed over with its colon. -/
theorem gives_skipKey (hw : Blanks w) {key w₁ : List Char} (hkey : Literal key)
    (hw₁ : Blanks w₁) : Gives skipKey (w ++ '"' :: ((key ++ ['"']) ++ (w₁ ++ [':']))) (.ok ())
      Anything := by
  have hquote : Gives (keyQuote .eofObject) (w ++ ['"']) (.ok ()) Anything :=
    Gives.token hw (by decide) ⟨fun _ _ _ => ⟨rfl, rfl⟩⟩
  have hstring : Gives skipString (key ++ ['"']) (.ok ()) Anything := hkey.gives_skipString
  have hcolon : Gives colon (w₁ ++ [':']) (.ok ()) Anything := gives_colon hw₁
  rw [← List.singleton_append, ← List.append_assoc w]
  exact hquote.bind (hstring.bind hcolon fun _ _ => trivial) fun _ _ => trivial

/-! ## Values -/

/-- Passing over a text leaves the open brackets as they were. There are rounds enough as long as
    they are not fewer than the characters that are left. -/
def Passes (v : List Char) : Prop :=
  ∀ (w rest budget : List Char) (opened : List Bracket) (p : Position), Blanks w → Delimited rest →
    (w ++ (v ++ rest)).length ≤ budget.length →
    ∃ budget' q, rest.length < budget'.length ∧
      (skipStart >>= skipOn budget opened) ⟨w ++ (v ++ rest), p⟩ =
        skipInside budget' true opened ⟨rest, q⟩

/-- A value without brackets is passed over at its start. -/
theorem passes_of_gives {v : List Char} (hv : StartsItem v)
    (h : ∀ w, Blanks w → Gives skipStart (w ++ v) (.ok none) Delimited) : Passes v := by
  intro w rest budget opened p hw hrest hbudget
  obtain ⟨q, hq⟩ := fits_ok_iff.1 ((h w hw).fits rest p hrest)
  refine ⟨budget, q, ?_, ?_⟩
  · obtain ⟨c, more, rfl, -⟩ := hv
    simp only [List.length_append, List.length_cons] at hbudget
    omega
  · rw [← List.append_assoc, run_bind_ok hq]
    rfl

theorem ItemsText.passes {items : List (List Char)} {first : Bool} {t : List Char}
    (ht : ItemsText first items t) (hitems : ∀ v ∈ items, StartsItem v ∧ Passes v)
    (rest budget : List Char) (opened : List Bracket) (p : Position)
    (hbudget : (t ++ ']' :: rest).length < budget.length) :
    ∃ budget' q, rest.length < budget'.length ∧
      skipInside budget (!first) (.list :: opened) ⟨t ++ ']' :: rest, p⟩ =
        skipInside budget' true opened ⟨rest, q⟩ := by
  induction ht generalizing budget p with
  | @close first w hw =>
      obtain ⟨round, budget, rfl⟩ := List.exists_cons_of_length_pos (Nat.zero_lt_of_lt hbudget)
      obtain ⟨q, hq⟩ := skipInside_close hw round budget (!first) .list opened rest p
      refine ⟨budget, q, ?_, hq⟩
      simp only [List.length_append, List.length_cons] at hbudget
      omega
  | @item first w w' v more items hw hw' hmore ih =>
      obtain ⟨round, budget, rfl⟩ := List.exists_cons_of_length_pos (Nat.zero_lt_of_lt hbudget)
      obtain ⟨⟨c, v, rfl, hc, hopen⟩, hv⟩ := hitems v (by simp)
      obtain ⟨w'', q, hw'', hlength, hround⟩ := skipInside_lead hw hw' hc
        (show c ≠ Bracket.list.closing from hopen) first round budget opened
        (v ++ (more ++ ']' :: rest)) p
      simp only [List.length_append, List.length_cons] at hbudget
      obtain ⟨budget', q', hbudget', hvalue⟩ := hv w'' (more ++ ']' :: rest) budget
        (.list :: opened) q hw'' (hmore.delimited rest) (by
          simp only [List.length_append, List.length_cons]
          omega)
      obtain ⟨budget'', q'', hbudget'', hitems⟩ := ih (fun x hx => hitems x (by simp [hx])) budget'
        q' hbudget'
      refine ⟨budget'', q'', hbudget'', ?_⟩
      rw [← hitems, Bool.not_false, ← hvalue, List.append_assoc, List.append_assoc]
      exact hround

theorem MembersText.passes {members : List (List Char × List Char)} {first : Bool} {t : List Char}
    (ht : MembersText first members t) (hkeys : ∀ m ∈ members, Literal m.1)
    (hmembers : ∀ m ∈ members, Passes m.2) (rest budget : List Char) (opened : List Bracket)
    (p : Position) (hbudget : (t ++ '\x7d' :: rest).length < budget.length) :
    ∃ budget' q, rest.length < budget'.length ∧
      skipInside budget (!first) (.object :: opened) ⟨t ++ '\x7d' :: rest, p⟩ =
        skipInside budget' true opened ⟨rest, q⟩ := by
  induction ht generalizing budget p with
  | @close first w hw =>
      obtain ⟨round, budget, rfl⟩ := List.exists_cons_of_length_pos (Nat.zero_lt_of_lt hbudget)
      obtain ⟨q, hq⟩ := skipInside_close hw round budget (!first) .object opened rest p
      refine ⟨budget, q, ?_, hq⟩
      simp only [List.length_append, List.length_cons] at hbudget
      omega
  | @member first w w' w₁ w₂ key v more members hw hw' hw₁ hw₂ hmore ih =>
      obtain ⟨round, budget, rfl⟩ := List.exists_cons_of_length_pos (Nat.zero_lt_of_lt hbudget)
      have hkey := hkeys (key, v) (by simp)
      have hv := hmembers (key, v) (by simp)
      have htext : memberOf key w₁ (w₂ ++ v) ++ (more ++ '\x7d' :: rest) =
          '"' :: ((key ++ ['"']) ++ (w₁ ++ [':'])) ++ (w₂ ++ (v ++ (more ++ '\x7d' :: rest))) := by
        simp [memberOf]
      obtain ⟨w'', q, hw'', -, hround⟩ := skipInside_lead hw hw' (c := '"') rfl
        (show '"' ≠ Bracket.object.closing by decide) first round budget opened
        (((key ++ ['"']) ++ (w₁ ++ [':'])) ++ (w₂ ++ (v ++ (more ++ '\x7d' :: rest)))) p
      -- the key with its colon, the value, and then the other members
      obtain ⟨q₁, hcolon⟩ := fits_ok_iff.1 ((gives_skipKey hw'' hkey hw₁).fits
        (w₂ ++ (v ++ (more ++ '\x7d' :: rest))) q trivial)
      simp only [memberOf, List.length_append, List.length_cons] at hbudget
      obtain ⟨budget', q₂, hbudget', hvalue⟩ := hv w₂ (more ++ '\x7d' :: rest) budget
        (.object :: opened) q₁ hw₂ (hmore.delimited rest) (by
          simp only [List.length_append, List.length_cons]
          omega)
      obtain ⟨budget'', q₃, hbudget'', hmembers⟩ := ih (fun x hx => hkeys x (by simp [hx]))
        (fun x hx => hmembers x (by simp [hx])) budget' q₂ hbudget'
      refine ⟨budget'', q₃, hbudget'', ?_⟩
      rw [← hmembers, Bool.not_false, ← hvalue, List.append_assoc, List.append_assoc, htext]
      rw [List.append_assoc, List.cons_append] at hcolon
      rw [List.cons_append, hround, skipEntry, run_bind_ok hcolon]

theorem gives_skipStart_list (hw : Blanks w) :
    Gives skipStart (w ++ ['[']) (.ok (some .list)) Anything :=
  Gives.token hw (by decide) ⟨fun _ _ _ => ⟨rfl, rfl⟩⟩

theorem gives_skipStart_object (hw : Blanks w) :
    Gives skipStart (w ++ ['\x7b']) (.ok (some .object)) Anything :=
  Gives.token hw (by decide) ⟨fun _ _ _ => ⟨rfl, rfl⟩⟩

theorem Valid.passes {v : List Char} (h : Valid v) : Passes v := by
  induction h with
  | word hword =>
      exact passes_of_gives (Valid.word hword).startsItem fun w hw => gives_skipStart_word hw hword
  | number hnumber =>
      exact passes_of_gives hnumber.startsItem fun w hw => gives_skipStart_number hw hnumber
  | string hliteral =>
      exact passes_of_gives (Valid.string hliteral).startsItem fun w hw =>
        gives_skipStart_string hw hliteral
  | @list items t hitems ht ih =>
      intro w rest budget opened p hw hrest hbudget
      obtain ⟨q, hq⟩ := fits_ok_iff.1 ((gives_skipStart_list hw).fits (t ++ ']' :: rest) p trivial)
      simp only [List.length_append, List.length_cons, List.length_nil] at hbudget
      obtain ⟨budget', q', hbudget', hinside⟩ := ht.passes
        (fun v hv => ⟨(hitems v hv).startsItem, ih v hv⟩) rest budget opened q (by
          simp only [List.length_append, List.length_cons]
          omega)
      refine ⟨budget', q', hbudget', ?_⟩
      have htext : w ++ ('[' :: (t ++ [']']) ++ rest) = w ++ ['['] ++ (t ++ ']' :: rest) := by simp
      rw [htext, run_bind_ok hq, ← hinside]
      rfl
  | @object members t hkeys hmembers ht ih =>
      intro w rest budget opened p hw hrest hbudget
      obtain ⟨q, hq⟩ := fits_ok_iff.1
        ((gives_skipStart_object hw).fits (t ++ '\x7d' :: rest) p trivial)
      simp only [List.length_append, List.length_cons, List.length_nil] at hbudget
      obtain ⟨budget', q', hbudget', hinside⟩ := ht.passes hkeys ih rest budget opened q (by
        simp only [List.length_append, List.length_cons]
        omega)
      refine ⟨budget', q', hbudget', ?_⟩
      have htext : w ++ ('\x7b' :: (t ++ ['\x7d']) ++ rest) =
          w ++ ['\x7b'] ++ (t ++ '\x7d' :: rest) := by simp
      rw [htext, run_bind_ok hq, ← hinside]
      rfl

theorem skipValue_eq (c : Cursor) : skipValue c = (skipStart >>= skipOn c.rest []) c := by
  unfold skipValue
  cases h : skipStart c with
  | error fault => rw [run_bind_error h]
  | ok r =>
      obtain ⟨bracket, here⟩ := r
      rw [run_bind_ok h]
      cases bracket with
      | none => rw [skipOn, skipInside]; rfl
      | some bracket => rfl

/-- **Any JSON is passed over**, as far as it goes and no further. -/
theorem Valid.gives_skipValue {v : List Char} (h : Valid v) (hw : Blanks w) :
    Gives skipValue (w ++ v) (.ok ()) Delimited := by
  refine ⟨fun rest p hrest => ?_⟩
  obtain ⟨budget, q, -, hq⟩ := h.passes w rest (w ++ (v ++ rest)) [] p hw hrest (Nat.le_refl _)
  rw [skipValue_eq, List.append_assoc, hq, skipInside]
  exact ⟨rfl, rfl⟩

end Json

end SelectorExplain
