import SelectorExplain.Proofs.Json.Reading

set_option autoImplicit false

/-! # What a reader may answer

`Yields d P` says that whatever text a reader meets, the value that it makes of it, if any,
satisfies `P`. The lemmas go along the readers: whatever they do between the parts, a list answers
with items that its reader answered, a record with what its fields were gathered to, and so on.
Lists, records and variants in brackets are only answered where there was room for another level. -/

namespace SelectorExplain

namespace Json

variable {α β σ : Type}

/-- Every value that a reader answers satisfies `P`. -/
structure Yields (d : Decoder α) (P : α → Prop) : Prop where
  holds : ∀ {c a here}, d c = .ok (a, here) → P a

theorem Yields.mono {d : Decoder α} {P Q : α → Prop} (h : Yields d P) (hle : ∀ a, P a → Q a) :
    Yields d Q :=
  ⟨fun hrun => hle _ (h.holds hrun)⟩

theorem yields_anything (d : Decoder α) : Yields d fun _ => True := ⟨fun _ => trivial⟩

/-! ## Steps -/

section

variable {P : α → Prop} {Q : β → Prop}

theorem yields_pure {a : α} (h : P a) : Yields (pure a : Decoder α) P := by
  constructor
  rintro c _ here ⟨⟩
  exact h

theorem yields_fail (problem : Problem) : Yields (Decoder.fail problem : Decoder α) P := ⟨nofun⟩

theorem yields_failHere (problem : Problem) : Yields (Decoder.failHere problem : Decoder α) P :=
  ⟨nofun⟩

theorem yields_failNext (problem : Problem) : Yields (Decoder.failNext problem : Decoder α) P :=
  ⟨nofun⟩

theorem Yields.bind {d : Decoder β} {f : β → Decoder α} (h : Yields d Q)
    (hmore : ∀ b, Q b → Yields (f b) P) : Yields (d >>= f) P := by
  constructor
  intro c a here hrun
  cases hd : d c with
  | error fault =>
      rw [run_bind_error hd] at hrun
      cases hrun
  | ok r =>
      obtain ⟨b, between⟩ := r
      rw [run_bind_ok hd] at hrun
      exact (hmore b (h.holds hd)).holds hrun

/-- Whatever is read first. -/
theorem yields_bind {d : Decoder β} {f : β → Decoder α} (hmore : ∀ b, Yields (f b) P) :
    Yields (d >>= f) P :=
  (yields_anything d).bind fun b _ => hmore b

theorem Yields.map {d : Decoder β} (h : Yields d Q) (f : β → α) (hf : ∀ b, Q b → P (f b)) :
    Yields (f <$> d) P := by
  rw [← bind_pure_comp]
  exact h.bind fun b hb => yields_pure (hf b hb)

end

theorem Yields.checked {P : α → Prop} {Q : β → Prop} {d : Decoder β}
    {check : β → Except TreeError α} (h : Yields d Q)
    (hcheck : ∀ b a, Q b → check b = .ok a → P a) : Yields (checked check d) P := by
  refine h.bind fun b hb => ?_
  cases hpass : check b with
  | error e => exact yields_fail _
  | ok a => exact yields_pure (hcheck b a hb hpass)

/-! ## Values -/

/-- A number that stands for something else is never answered. -/
theorem yields_misfitNumber {P : α → Prop} (expected : String) (n : Number) :
    Yields (match n with
      | .integer i => Decoder.failHere (.shape (.wrongType (.integer i) expected))
      | .float x => Decoder.failHere (.shape (.wrongType (.float (.ofFloat .even x)) expected)) :
        Decoder α) P := by
  cases n <;> exact yields_failHere _

/-- What stands for something else is never answered. -/
theorem yields_reject (expected : String) {P : α → Prop} :
    Yields (reject expected : Decoder α) P := by
  refine yields_bind fun c => ?_
  -- whatever has been read, only its description is used
  cases c with
  | none => exact yields_failNext _
  | some c =>
      dsimp only
      split
      · exact yields_bind fun _ => yields_bind fun _ => yields_failHere _
      · exact yields_bind fun _ => yields_bind fun _ => yields_failHere _
      · exact yields_bind fun _ => yields_bind fun _ => yields_failHere _
      · exact yields_bind fun _ => yields_bind (yields_misfitNumber expected)
      · exact yields_bind fun _ => yields_bind fun _ => yields_failHere _
      · exact yields_failHere _
      · exact yields_failHere _
      · split
        · exact yields_bind (yields_misfitNumber expected)
        · exact yields_failNext _

theorem Yields.option {value : Decoder α} {P : α → Prop} (h : Yields value P) :
    Yields (option value) fun o => ∀ a ∈ o, P a := by
  refine yields_bind fun c => ?_
  split
  · refine yields_bind fun _ => yields_bind fun _ => yields_pure ?_
    intro a ha
    cases ha
  · refine h.bind fun a ha => yields_pure ?_
    intro b hb
    cases hb
    exact ha

/-! ## Brackets -/

section

variable {inside : Decoder α} {P : α → Prop} {room : Bool}

theorem Yields.closedBy {ending : Decoder Unit} {past : Cursor → Cursor} (h : Yields inside P) :
    Yields (closedBy ending past inside) P := by
  constructor
  intro c a here hrun
  unfold Json.closedBy at hrun
  split at hrun
  · cases hrun
  · cases hrun
  · next b between hinside =>
      split at hrun
      · cases hrun
      · cases hrun
        exact h.holds hinside

theorem Yields.inList (h : room = true → Yields inside P) :
    Yields (inList room inside) fun a => room = true ∧ P a := by
  cases room with
  | false => exact yields_failNext _
  | true => exact yields_bind fun _ => (h rfl).closedBy.mono fun a ha => ⟨rfl, ha⟩

theorem Yields.inObject (h : room = true → Yields inside P) :
    Yields (inObject room inside) fun a => room = true ∧ P a := by
  cases room with
  | false => exact yields_failNext _
  | true => exact yields_bind fun _ => (h rfl).closedBy.mono fun a ha => ⟨rfl, ha⟩

end

/-! ## Lists -/

theorem Yields.items {item : Decoder α} {P : α → Prop} (h : Yields item P) (budget : List Char)
    (first : Bool) : Yields (items item budget first) fun xs => ∀ x ∈ xs, P x := by
  induction budget generalizing first with
  | nil => exact yields_failNext _
  | cons _ budget ih =>
      refine yields_bind fun more => ?_
      cases more with
      | false => exact yields_pure (by simp)
      | true =>
          refine h.bind fun a ha => (ih false).bind fun xs hxs => yields_pure ?_
          exact List.forall_mem_cons.2 ⟨ha, hxs⟩

theorem Yields.list {item : Decoder α} {P : α → Prop} {room : Bool}
    (h : room = true → Yields item P) :
    Yields (list room item) fun xs => room = true ∧ ∀ x ∈ xs, P x := by
  refine yields_bind fun c => ?_
  split
  · exact yields_failNext _
  · refine Yields.inList fun hroom => ?_
    exact ⟨fun {c} _ _ hrun => ((h hroom).items c.rest true).holds hrun⟩
  · exact yields_reject _

/-! ## Records -/

section

variable {r : Record σ α} {P : α → Prop} {I : σ → Prop} {room : Bool}

/-- Each field keeps what holds of the fields gathered so far. -/
def KeepsFields (fields : List (FieldReader σ)) (I : σ → Prop) : Prop :=
  ∀ f ∈ fields, ∀ s, I s → Yields (f.read s) I

theorem Yields.field {value : Decoder β} {Q : β → Prop} (h : Yields value Q) {name : String}
    {required : Bool} {get : σ → Option β} {set : σ → β → σ}
    (hset : ∀ s b, I s → Q b → I (set s b)) (s : σ) (hs : I s) :
    Yields ((FieldReader.of name required get set value).read s) I :=
  h.bind fun b hb => yields_pure (hset s b hs hb)

theorem KeepsFields.member (h : KeepsFields r.fields I) {s : σ} (hs : I s) :
    Yields (r.member s) I := by
  refine yields_bind fun _ => yields_bind fun key => ?_
  cases hfind : r.fields.find? (·.name == key) with
  | none => exact yields_bind fun _ => yields_bind fun _ => yields_pure hs
  | some f =>
      dsimp only
      split
      · exact yields_fail _
      · exact yields_bind fun _ => h f (List.mem_of_find?_eq_some hfind) s hs

theorem KeepsFields.members (h : KeepsFields r.fields I) (budget : List Char) (first : Bool)
    {s : σ} (hs : I s) : Yields (r.members budget first s) I := by
  induction budget generalizing first s with
  | nil => exact yields_failNext _
  | cons _ budget ih =>
      refine yields_bind fun more => ?_
      cases more with
      | false => exact yields_pure hs
      | true => exact (h.member hs).bind fun t ht => ih false ht

theorem KeepsFields.positional {fields : List (FieldReader σ)} (h : KeepsFields fields I)
    (index : Nat) {s : σ} (hs : I s) : Yields (r.positional index fields s) I := by
  induction fields generalizing index s with
  | nil => exact yields_pure hs
  | cons f fields ih =>
      have hmore : KeepsFields fields I := fun g hg => h g (by simp [hg])
      refine yields_bind fun more => ?_
      cases more with
      | true => exact (h f (by simp) s hs).bind fun t ht => ih hmore (index + 1) ht
      | false =>
          simp only [Bool.false_eq_true, if_false]
          split
          · exact yields_fail _
          · exact ih hmore (index + 1) hs

/-- A record answers with what its fields were gathered to, in whichever way they were written. -/
theorem Yields.record (hstart : I r.start) (hfields : room = true → KeepsFields r.fields I)
    (hfinish : ∀ s a, I s → r.finish s = .ok a → P a) :
    Yields (r.read room) fun a => room = true ∧ P a := by
  -- both spellings end in the same way
  have hfinished : ∀ s, I s → Yields (r.finished s) P := by
    intro s hs
    unfold Record.finished
    cases h : r.finish s with
    | error m => exact yields_fail _
    | ok a => exact yields_pure (hfinish s a hs h)
  refine yields_bind fun c => ?_
  split
  · exact yields_failNext _
  · refine Yields.inList fun hroom => ?_
    exact ((hfields hroom).positional 0 hstart).bind hfinished
  · refine Yields.inObject fun hroom => Yields.bind ⟨fun {c} _ _ hrun => ?_⟩ hfinished
    exact ((hfields hroom).members c.rest true hstart).holds hrun
  · exact yields_reject _

/-- A record takes a level, whatever its fields. -/
theorem yields_room : Yields (r.read room) fun _ => room = true :=
  (Yields.record (I := fun _ => True) (P := fun _ => True) trivial
    (fun _ _ _ _ _ => yields_anything _) fun _ _ _ _ => trivial).mono fun _ h => h.1

end

/-! ## Variants -/

/-- Only a word that is known is found. -/
theorem yields_lookup (known : List (String × Option α × Decoder α)) (key : String) :
    Yields (match known.find? (·.1 == key) with
      | some entry => pure entry.2
      | none => Decoder.failHere (.shape (.unknownVariant key (known.map (·.1)))) :
        Decoder (Option α × Decoder α))
      fun found => ∃ entry ∈ known, entry.2 = found := by
  cases hfind : known.find? (·.1 == key) with
  | none => exact yields_failHere _
  | some entry => exact yields_pure ⟨entry, List.mem_of_find?_eq_some hfind, rfl⟩

/-- A variant answers with what one of its words stands for, or with what it carries. -/
theorem Yields.variant {known : List (String × Option α × Decoder α)} {P : α → Prop} {room : Bool}
    (hword : ∀ entry ∈ known, ∀ a ∈ entry.2.1, P a)
    (hbody : room = true → ∀ entry ∈ known, Yields entry.2.2 P) :
    Yields (variant room known) P := by
  refine yields_bind fun c => ?_
  split
  · exact yields_failNext _
  · refine yields_bind fun _ => yields_bind fun key => (yields_lookup known key).bind ?_
    rintro _ ⟨entry, hentry, rfl⟩
    cases hvalue : entry.2.1 with
    | none => exact yields_fail _
    | some a => exact yields_pure (hword entry hentry a hvalue)
  · cases room with
    | false => exact (yields_failNext (P := fun _ => False) _).bind fun _ h => h.elim
    | true =>
        refine yields_bind fun key => (yields_lookup known key).bind ?_
        rintro _ ⟨entry, hentry, rfl⟩
        refine yields_bind fun _ => (hbody rfl entry hentry).bind fun a ha => ?_
        refine yields_bind fun c => ?_
        split
        · exact yields_failHere _
        · exact yields_bind fun _ => yields_pure ha
        · exact yields_failHere _
  · exact yields_failNext _

/-! ## Whole texts -/

theorem Yields.decode {d : Nat → Decoder α} {P : α → Prop} (h : Yields (d maxDepth) P)
    {text : String} {a : α} (hdecode : decode d text = .ok a) : P a := by
  have hwhole : Yields (whole (d maxDepth)) P := by
    refine h.bind fun a ha => yields_bind fun c => ?_
    split
    · exact yields_pure ha
    · exact yields_failNext _
  unfold Json.decode at hdecode
  split at hdecode
  · next b here hrun =>
      cases hdecode
      exact hwhole.holds hrun
  · cases hdecode

end Json

end SelectorExplain
