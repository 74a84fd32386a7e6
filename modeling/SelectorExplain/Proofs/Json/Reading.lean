import SelectorExplain.Json.Decoder
import SelectorExplain.Json.Value

set_option autoImplicit false

/-! # What a reader makes of a text

`Gives d text r behind` says what a reader makes of a text wherever it stands and whatever comes
behind it, as long as that satisfies `behind`: it reads a value and stops behind the text, or it
reports a problem and its place. The lemmas put such facts together along the readers: one for each
way of going on, for tokens, for options and checks, and for what stands around brackets.

Blanks between tokens are allowed wherever a token may come. -/

namespace SelectorExplain

namespace Json

variable {α β : Type}

/-! ## Outcomes -/

/-- An outcome of reading as it should be: the value, with `rest` left to read, or the problem. -/
def Fits (r : Except Problem α) (rest : List Char) : Except Fault (α × Cursor) → Prop
  | .ok (a, here) => r = .ok a ∧ here.rest = rest
  | .error (.placed problem _) => r = .error problem
  | .error (.loose _ _) => False

theorem fits_ok_iff {a : α} {rest : List Char} {o : Except Fault (α × Cursor)} :
    Fits (.ok a) rest o ↔ ∃ q, o = .ok (a, ⟨rest, q⟩) := by
  constructor
  · intro h
    rcases o with (⟨problem, q⟩ | _) | ⟨b, here⟩
    · cases h
    · cases h
    · obtain ⟨hvalue, rfl⟩ := h
      cases hvalue
      exact ⟨here.position, rfl⟩
  · rintro ⟨q, rfl⟩
    exact ⟨rfl, rfl⟩

theorem fits_error_iff {problem : Problem} {rest : List Char} {o : Except Fault (α × Cursor)} :
    Fits (.error problem) rest o ↔ ∃ q, o = .error (.placed problem q) := by
  constructor
  · intro h
    rcases o with (⟨other, q⟩ | _) | ⟨b, here⟩
    · cases h
      exact ⟨q, rfl⟩
    · cases h
    · cases h.1
  · rintro ⟨q, rfl⟩
    rfl

/-- What a reader makes of a text, in front of what satisfies `behind`. -/
structure Gives (d : Decoder α) (text : List Char) (r : Except Problem α)
    (behind : List Char → Prop) : Prop where
  fits : ∀ rest p, behind rest → Fits r rest (d ⟨text ++ rest, p⟩)

/-- Anything may come behind. -/
def Anything (_ : List Char) : Prop := True

/-- What comes behind begins with a character. -/
def StartsWith (c : Char) (rest : List Char) : Prop := ∃ more, rest = c :: more

/-- What comes behind a value: nothing, or what cannot go on with it. -/
def Delimited (rest : List Char) : Prop :=
  ∀ c ∈ rest.head?, isBlank c = true ∨ c ∈ [',', ']', '\x7d']

theorem Gives.mono {d : Decoder α} {text : List Char} {r : Except Problem α}
    {behind narrower : List Char → Prop} (h : Gives d text r behind)
    (hbehind : ∀ rest, narrower rest → behind rest) : Gives d text r narrower :=
  ⟨fun rest p hrest => h.fits rest p (hbehind rest hrest)⟩

theorem Gives.delimited {d : Decoder α} {text : List Char} {r : Except Problem α}
    (h : Gives d text r Anything) : Gives d text r Delimited :=
  h.mono fun _ _ => trivial

/-! ## One after the other -/

theorem run_bind_ok {d : Decoder α} {f : α → Decoder β} {c here : Cursor} {a : α}
    (h : d c = .ok (a, here)) : (d >>= f) c = f a here := by
  show (d c >>= fun s => f s.1 s.2) = f a here
  rw [h]
  rfl

theorem run_bind_error {d : Decoder α} {f : α → Decoder β} {c : Cursor} {fault : Fault}
    (h : d c = .error fault) : (d >>= f) c = .error fault := by
  show (d c >>= fun s => f s.1 s.2) = .error fault
  rw [h]
  rfl

theorem run_map_ok {d : Decoder α} {f : α → β} {c here : Cursor} {a : α}
    (h : d c = .ok (a, here)) : (f <$> d) c = .ok (f a, here) := by
  show (d c >>= fun s => Except.ok (f s.1, s.2)) = .ok (f a, here)
  rw [h]
  rfl

theorem run_map_error {d : Decoder α} {f : α → β} {c : Cursor} {fault : Fault}
    (h : d c = .error fault) : (f <$> d) c = .error fault := by
  show (d c >>= fun s => Except.ok (f s.1, s.2)) = .error fault
  rw [h]
  rfl

section

variable {d : Decoder α} {f : α → Decoder β} {t u : List Char} {a : α} {r : Except Problem β}
  {behind between : List Char → Prop}

theorem gives_pure (a : α) : Gives (pure a : Decoder α) [] (.ok a) behind :=
  ⟨fun _ _ _ => ⟨rfl, rfl⟩⟩

theorem Gives.bind (h : Gives d t (.ok a) between) (hmore : Gives (f a) u r behind)
    (hbetween : ∀ rest, behind rest → between (u ++ rest)) :
    Gives (d >>= f) (t ++ u) r behind := by
  refine ⟨fun rest p hrest => ?_⟩
  obtain ⟨q, hq⟩ := fits_ok_iff.1 (h.fits (u ++ rest) p (hbetween rest hrest))
  rw [List.append_assoc, run_bind_ok hq]
  exact hmore.fits rest q hrest

theorem Gives.bind_error {problem : Problem} (h : Gives d t (.error problem) between)
    (hbetween : ∀ rest, behind rest → between (u ++ rest)) :
    Gives (d >>= f) (t ++ u) (.error problem) behind := by
  refine ⟨fun rest p hrest => ?_⟩
  obtain ⟨q, hq⟩ := fits_error_iff.1 (h.fits (u ++ rest) p (hbetween rest hrest))
  rw [List.append_assoc, run_bind_error hq]
  rfl

theorem Gives.map {s : Except Problem α} (h : Gives d t s behind) (g : α → β) :
    Gives (g <$> d) t (s.map g) behind := by
  refine ⟨fun rest p hrest => ?_⟩
  cases s with
  | ok a =>
      obtain ⟨q, hq⟩ := fits_ok_iff.1 (h.fits rest p hrest)
      rw [run_map_ok hq]
      exact ⟨rfl, rfl⟩
  | error problem =>
      obtain ⟨q, hq⟩ := fits_error_iff.1 (h.fits rest p hrest)
      rw [run_map_error hq]
      rfl

end

/-! ## Tokens -/

/-- Characters that may stand between tokens. -/
def Blanks (w : List Char) : Prop := ∀ c ∈ w, isBlank c = true

theorem blanks_nil : Blanks [] := by
  intro c hc
  cases hc

theorem trim_blanks {w : List Char} (hw : Blanks w) {c : Char} (hc : isBlank c = false)
    (t : List Char) (p : Position) : ∃ q, (Cursor.mk (w ++ c :: t) p).trim = ⟨c :: t, q⟩ := by
  induction w generalizing p with
  | nil =>
      refine ⟨p, ?_⟩
      simp [Cursor.trim, trimBlanks, hc]
  | cons b w ih =>
      have hb : isBlank b = true := hw b (by simp)
      obtain ⟨q, hq⟩ := ih (fun x hx => hw x (by simp [hx])) (p.after b)
      refine ⟨q, ?_⟩
      rw [← hq]
      simp [Cursor.trim, trimBlanks, hb]

/-- At a token a reader goes on by its first character. -/
theorem run_token_bind {f : Option Char → Decoder α} {w : List Char} (hw : Blanks w) {c : Char}
    (hc : isBlank c = false) (t : List Char) (p : Position) :
    ∃ q, (Decoder.token >>= f) ⟨w ++ c :: t, p⟩ = f (some c) ⟨c :: t, q⟩ := by
  obtain ⟨q, hq⟩ := trim_blanks hw hc t p
  refine ⟨q, ?_⟩
  show f (Cursor.mk (w ++ c :: t) p).trim.rest.head? (Cursor.mk (w ++ c :: t) p).trim = _
  rw [hq]
  rfl

section

variable {f : Option Char → Decoder α} {w t : List Char} {c : Char} {r : Except Problem α}
  {behind : List Char → Prop}

/-- A token of the text itself. -/
theorem Gives.token (hw : Blanks w) (hc : isBlank c = false)
    (h : Gives (f (some c)) (c :: t) r behind) :
    Gives (Decoder.token >>= f) (w ++ c :: t) r behind := by
  refine ⟨fun rest p hrest => ?_⟩
  obtain ⟨q, hq⟩ := run_token_bind (f := f) hw hc (t ++ rest) p
  rw [List.append_assoc, List.cons_append, hq]
  exact h.fits rest q hrest

/-- A token that stands behind the text. -/
theorem Gives.token_behind (hw : Blanks w)
    (hstart : ∀ rest, behind rest → ∃ c more, rest = c :: more ∧ isBlank c = false ∧
      ∀ p, Fits r rest (f (some c) ⟨rest, p⟩)) :
    Gives (Decoder.token >>= f) w r behind := by
  refine ⟨fun rest p hrest => ?_⟩
  obtain ⟨c, more, rfl, hc, h⟩ := hstart rest hrest
  obtain ⟨q, hq⟩ := run_token_bind (f := f) hw hc more p
  rw [hq]
  exact h q

theorem Gives.eat {g : Unit → Decoder α} (h : Gives (g ()) t r behind) :
    Gives (Decoder.eat >>= g) (c :: t) r behind :=
  ⟨fun rest p hrest => h.fits rest (p.after c) hrest⟩

end

variable {r : Except Problem α} {behind : List Char → Prop} {w t : List Char}

/-! ## Options and checks -/

theorem Gives.andReturn {d : Decoder α} (h : Gives d t r behind) (g : α → β) :
    Gives (d >>= fun a => pure (g a)) t (r.map g) behind := by
  rw [bind_pure_comp]
  exact h.map g

/-- A value in place of an optional one. -/
theorem Gives.option {value : Decoder α} (hw : Blanks w) {c : Char} (hc : isBlank c = false)
    (hnull : c ≠ 'n') (h : Gives value (c :: t) r behind) :
    Gives (option value) (w ++ c :: t) (r.map some) behind := by
  refine Gives.token hw hc ?_
  split
  · next heq => exact absurd (Option.some.inj heq) hnull
  · exact h.andReturn some

/-- A check that lets every value pass that may be read. -/
theorem Gives.checked {d : Decoder α} {check : α → Except TreeError β} {g : α → β}
    (h : Gives d t r behind) (hcheck : ∀ a, r = .ok a → check a = .ok (g a)) :
    Gives (checked check d) t (r.map g) behind := by
  refine ⟨fun rest p hrest => ?_⟩
  cases r with
  | ok a =>
      obtain ⟨q, hq⟩ := fits_ok_iff.1 (h.fits rest p hrest)
      rw [Json.checked, run_bind_ok hq, hcheck a rfl]
      exact ⟨rfl, rfl⟩
  | error problem =>
      obtain ⟨q, hq⟩ := fits_error_iff.1 (h.fits rest p hrest)
      rw [Json.checked, run_bind_error hq]
      rfl

/-! ## Brackets -/

theorem gives_colon (hw : Blanks w) : Gives colon (w ++ [':']) (.ok ()) behind := by
  refine Gives.token hw (by decide) ?_
  refine ⟨fun rest p _ => ?_⟩
  exact ⟨rfl, rfl⟩

/-- Reading goes on behind the bracket that closes what is inside. -/
theorem closedBy_fits {ending : Decoder Unit} {past : Cursor → Cursor} {inside : Decoder α}
    {close : Char} (hending : ∀ rest p, Fits (.ok ()) rest (ending ⟨close :: rest, p⟩))
    (h : Gives inside t r (StartsWith close)) :
    Gives (closedBy ending past inside) (t ++ [close]) r behind := by
  refine ⟨fun rest p _ => ?_⟩
  have hinside := h.fits (close :: rest) p ⟨rest, rfl⟩
  rw [List.append_assoc, List.singleton_append]
  cases r with
  | ok a =>
      obtain ⟨q, hq⟩ := fits_ok_iff.1 hinside
      obtain ⟨q', hq'⟩ := fits_ok_iff.1 (hending rest q)
      simp only [closedBy, hq, hq']
      exact ⟨rfl, rfl⟩
  | error problem =>
      obtain ⟨q, hq⟩ := fits_error_iff.1 hinside
      simp only [closedBy, hq]
      rfl

theorem Gives.inObject {inside : Decoder α} (h : Gives inside t r (StartsWith '\x7d')) :
    Gives (inObject true inside) ('\x7b' :: (t ++ ['\x7d'])) r behind :=
  Gives.eat (closedBy_fits (fun _ _ => ⟨rfl, rfl⟩) h)

theorem Gives.inList {inside : Decoder α} (h : Gives inside t r (StartsWith ']')) :
    Gives (inList true inside) ('[' :: (t ++ [']'])) r behind :=
  Gives.eat (closedBy_fits (fun _ _ => ⟨rfl, rfl⟩) h)

/-! ## Whole texts -/

theorem trim_blanks_end {w : List Char} (hw : Blanks w) (p : Position) :
    (Cursor.mk w p).trim.rest = [] := by
  show (trimBlanks w p).rest = []
  induction w generalizing p with
  | nil => rfl
  | cons b w ih =>
      rw [trimBlanks, if_pos (hw b (by simp))]
      exact ih (fun x hx => hw x (by simp [hx])) (p.after b)

theorem delimited_of_blanks {w : List Char} (hw : Blanks w) : Delimited w :=
  fun c hc => .inl (hw c (List.mem_of_mem_head? hc))

/-- Behind the last token there is none. -/
theorem run_token_bind_end {f : Option Char → Decoder α} {w : List Char} (hw : Blanks w)
    (p : Position) : (Decoder.token >>= f) ⟨w, p⟩ = f none (Cursor.mk w p).trim := by
  show f (Cursor.mk w p).trim.rest.head? (Cursor.mk w p).trim = _
  rw [trim_blanks_end hw]
  rfl

/-- Blanks may stand behind the value that is the text. -/
theorem decode_ok_blanks {d : Nat → Decoder α} {text : String} {t w : List Char} {a : α}
    (htext : text.toList = t ++ w) (hw : Blanks w)
    (h : Gives (d maxDepth) t (.ok a) Delimited) : decode d text = .ok a := by
  obtain ⟨q, hq⟩ := fits_ok_iff.1 (h.fits w {} (delimited_of_blanks hw))
  rw [decode, whole, Cursor.ofString, htext, run_bind_ok hq, run_token_bind_end hw]
  rfl

theorem decode_ok {d : Nat → Decoder α} {text : String} {a : α}
    (h : Gives (d maxDepth) text.toList (.ok a) Delimited) : decode d text = .ok a :=
  decode_ok_blanks (List.append_nil _).symm blanks_nil h

theorem decode_error {d : Nat → Decoder α} {text : String} {problem : Problem}
    (h : Gives (d maxDepth) text.toList (.error problem) Delimited) :
    ∃ q, decode d text = .error (.placed problem q) := by
  obtain ⟨q, hq⟩ := fits_error_iff.1 (h.fits [] {} (by simp [Delimited]))
  rw [List.append_nil] at hq
  refine ⟨q, ?_⟩
  rw [decode, whole, Cursor.ofString, run_bind_error hq]

end Json

end SelectorExplain
