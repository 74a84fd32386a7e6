import SelectorExplain.Proofs.Explainer.Rendering
import SelectorExplain.Proofs.Selector.ReadsOff

set_option autoImplicit false

/-! # The text of a selector can be read in one way

Two groups of plain names whose explanations spell the same text are the same, up to prefixes that
say nothing; their literals may be anything.

The argument goes through the layers of the tree, each of which reads off because its parts do and
because what may stand behind a part tells which one comes next. A bar tells a prefix from a name, a
first character the kinds of simple selectors from each other, and a second one the kinds of
combinators, since no sequence begins with the character of a combinator. -/

namespace SelectorExplain

/-! ## Plain selectors -/

/-- A prefix that says something: not an absent or empty one, and not `*`. -/
def meaningful (space : Option String) : Option String := space.filter fun p => p ≠ "" ∧ p ≠ "*"

/-- Prefixes that say nothing are left out. -/
def Simple.normalize : Simple → Simple
  | universal space => universal (meaningful space)
  | type name space => type name (meaningful space)
  | s => s

def Sequence.normalize : Sequence → Sequence
  | last simples => last (simples.map Simple.normalize)
  | chained simples kind target => chained (simples.map Simple.normalize) kind target.normalize

def Group.normalize (g : Group) : Group where
  sequences := g.sequences.map Sequence.normalize

/-- Whether a simple selector names an element, or any element. -/
def Simple.isElement : Simple → Bool
  | universal _ | type _ _ => true
  | _ => false

/-- Names and meaningful prefixes are plain; a literal may be anything. -/
def Simple.Plain : Simple → Prop
  | universal space => ∀ p ∈ meaningful space, PlainName p
  | type name space => PlainName name ∧ ∀ p ∈ meaningful space, PlainName p
  | id name => PlainName name
  | className name => PlainName name
  | attr test => PlainName test.name ∧ test.WellFormed

instance : (s : Simple) → Decidable s.Plain
  | .universal space => inferInstanceAs (Decidable (∀ p ∈ meaningful space, PlainName p))
  | .type name space =>
    inferInstanceAs (Decidable (PlainName name ∧ ∀ p ∈ meaningful space, PlainName p))
  | .id name => inferInstanceAs (Decidable (PlainName name))
  | .className name => inferInstanceAs (Decidable (PlainName name))
  | .attr test => inferInstanceAs (Decidable (PlainName test.name ∧ test.WellFormed))

/-- Plain simple selectors that do not name an element. -/
def PlainRest (simples : List Simple) : Prop := ∀ s ∈ simples, s.Plain ∧ s.isElement = false

instance (simples : List Simple) : Decidable (PlainRest simples) :=
  inferInstanceAs (Decidable (∀ s ∈ simples, s.Plain ∧ s.isElement = false))

/-- Plain simple selectors, at least one, of which only the first may name an element. -/
def PlainSimples : List Simple → Prop
  | [] => False
  | first :: rest => first.Plain ∧ PlainRest rest

instance : (simples : List Simple) → Decidable (PlainSimples simples)
  | [] => isFalse id
  | first :: rest => inferInstanceAs (Decidable (first.Plain ∧ PlainRest rest))

def Sequence.Plain : Sequence → Prop
  | last simples => PlainSimples simples
  | chained simples _ target => PlainSimples simples ∧ target.Plain

instance Sequence.decidablePlain : (s : Sequence) → Decidable s.Plain
  | last simples => inferInstanceAs (Decidable (PlainSimples simples))
  | chained simples _ target =>
    have := decidablePlain target
    inferInstanceAs (Decidable (PlainSimples simples ∧ target.Plain))

/-- A group whose names are plain. -/
def Group.Plain (g : Group) : Prop := ∀ s ∈ g.sequences, s.Plain

instance (g : Group) : Decidable g.Plain :=
  inferInstanceAs (Decidable (∀ s ∈ g.sequences, s.Plain))

/-! ## Elements and their prefixes -/

/-- The characters that may stand behind a simple selector. -/
def behindSimple : List Char := [' ', ',', '#', '.', '[']

theorem behindSimple_subset : behindSimple ⊆ specials := by decide

/-- A name behind a prefix, or without one. -/
def qualified (space : Option String) (name : String) : List Char :=
  match space with
  | none => name.toList
  | some p => p.toList ++ '|' :: name.toList

theorem toList_qualify (space : Option String) (name : String) :
    (qualify space name).toList = qualified (meaningful space) name := by
  cases space with
  | none => rfl
  | some p =>
      by_cases hp : p = "" ∨ p = "*"
      · have hnone : meaningful (some p) = none := by
          rcases hp with rfl | rfl <;> rfl
        rw [hnone, qualify, if_pos hp, qualified]
      · have hsome : meaningful (some p) = some p := by
          obtain ⟨hempty, hstar⟩ := not_or.1 hp
          simp [meaningful, hempty, hstar]
        rw [hsome, qualify, if_neg hp, qualified]
        simp

/-- The name of an element, or the star for any element. -/
def PlainElement (name : String) : Prop := name = "*" ∨ PlainName name

theorem PlainName.head {name : String} (h : PlainName name) :
    ∃ c rest, name.toList = c :: rest ∧ c ∉ specials := by
  cases hchars : name.toList with
  | nil => exact absurd (String.toList_eq_nil_iff.1 hchars) h.1
  | cons c rest => exact ⟨c, rest, rfl, h.2 c (by simp [hchars])⟩

theorem star_ne_plain {name : String} (h : PlainName name) (r s : List Char) :
    '*' :: r ≠ name.toList ++ s := by
  obtain ⟨c, rest, hname, hc⟩ := h.head
  rw [hname]
  intro heq
  rw [← (List.cons.inj heq).1] at hc
  exact hc (by decide)

theorem star_ne_name {name : String} (h : PlainName name) : "*" ≠ name := by
  rintro rfl
  exact absurd h (by decide)

theorem readsOff_element :
    ReadsOff String.toList id PlainElement (EndsWith specials) := by
  intro a b r s ha hb hr hs h
  rcases ha with rfl | ha
  · rcases hb with rfl | hb
    · exact ⟨rfl, (List.cons.inj h).2⟩
    · exact absurd h (star_ne_plain hb _ _)
  · rcases hb with rfl | hb
    · exact absurd h.symm (star_ne_plain ha _ _)
    · exact readsOff_name ha hb hr hs h

/-- Where a name ends tells whether it is a prefix: behind one there is a bar. -/
theorem element_ne_qualified {name p : String} {r s : List Char} (hname : PlainElement name)
    (hp : PlainName p) (hr : EndsWith behindSimple r) :
    name.toList ++ r ≠ p.toList ++ '|' :: s := by
  intro h
  rcases hname with rfl | hname
  · exact star_ne_plain hp _ _ h
  · -- both names end at the same place, but only a prefix has a bar there
    obtain ⟨-, hrest⟩ := readsOff_name hname hp (hr.mono behindSimple_subset)
      (endsWith_cons (by decide) s) h
    rw [hrest] at hr
    exact absurd (hr '|' rfl) (by decide)

/-- Names with their meaningful prefixes, in front of what may stand behind a simple selector. -/
theorem qualify_unique {spaceA spaceB : Option String} {nameA nameB : String} {r s : List Char}
    (hnameA : PlainElement nameA) (hspaceA : ∀ p ∈ meaningful spaceA, PlainName p)
    (hnameB : PlainElement nameB) (hspaceB : ∀ p ∈ meaningful spaceB, PlainName p)
    (hr : EndsWith behindSimple r) (hs : EndsWith behindSimple s)
    (h : (qualify spaceA nameA).toList ++ r = (qualify spaceB nameB).toList ++ s) :
    meaningful spaceA = meaningful spaceB ∧ nameA = nameB ∧ r = s := by
  have hr' := hr.mono behindSimple_subset
  have hs' := hs.mono behindSimple_subset
  rw [toList_qualify, toList_qualify] at h
  cases hA : meaningful spaceA with
  | none =>
      cases hB : meaningful spaceB with
      | none =>
          rw [hA, hB] at h
          obtain ⟨hname, hrest⟩ := readsOff_element hnameA hnameB hr' hs' h
          exact ⟨rfl, hname, hrest⟩
      | some q =>
          rw [hA, hB] at h
          simp only [qualified, List.append_assoc, List.cons_append] at h
          exact absurd h (element_ne_qualified hnameA (hspaceB q hB) hr)
  | some p =>
      cases hB : meaningful spaceB with
      | none =>
          rw [hA, hB] at h
          simp only [qualified, List.append_assoc, List.cons_append] at h
          exact absurd h.symm (element_ne_qualified hnameB (hspaceA p hA) hs)
      | some q =>
          rw [hA, hB] at h
          simp only [qualified, List.append_assoc, List.cons_append] at h
          have hbar : ∀ rest, EndsWith specials ('|' :: rest) := endsWith_cons (by decide)
          obtain ⟨hspace, hbehind⟩ :=
            readsOff_name (hspaceA p hA) (hspaceB q hB) (hbar _) (hbar _) h
          obtain ⟨hname, hrest⟩ :=
            readsOff_element hnameA hnameB hr' hs' (List.cons.inj hbehind).2
          exact ⟨congrArg some hspace, hname, hrest⟩

/-! ## Simple selectors -/

/-- The character that tells what kind of simple selector follows; names of elements have none. -/
def Simple.mark : Simple → Option Char
  | universal _ | type _ _ => none
  | id _ => some '#'
  | className _ => some '.'
  | attr _ => some '['

theorem PlainElement.head {name : String} (h : PlainElement name) :
    ∃ c rest, name.toList = c :: rest ∧ (c = '*' ∨ c ∉ specials) := by
  rcases h with rfl | h
  · exact ⟨'*', [], rfl, .inl rfl⟩
  · obtain ⟨c, rest, hname, hc⟩ := h.head
    exact ⟨c, rest, hname, .inr hc⟩

theorem qualified_head {space : Option String} {name : String} (hname : PlainElement name)
    (hspace : ∀ p ∈ space, PlainName p) :
    ∃ c rest, qualified space name = c :: rest ∧ (c = '*' ∨ c ∉ specials) := by
  cases space with
  | none => exact hname.head
  | some p =>
      obtain ⟨c, rest, hp, hc⟩ := (hspace p rfl).head
      exact ⟨c, rest ++ '|' :: name.toList, by rw [qualified, hp]; rfl, .inr hc⟩

/-- A simple selector begins with its mark, or with a character that is no mark. -/
theorem Simple.Plain.head {s : Simple} (h : s.Plain) :
    ∃ c rest, s.text.toList = c :: rest ∧
      (s.mark = some c ∧ c ∈ ['#', '.', '['] ∨ s.mark = none ∧ (c = '*' ∨ c ∉ specials)) := by
  cases s with
  | universal space =>
      obtain ⟨c, rest, hchars, hc⟩ := qualified_head (.inl rfl) h
      exact ⟨c, rest, by rw [text, toList_qualify, hchars], .inr ⟨rfl, hc⟩⟩
  | type name space =>
      obtain ⟨c, rest, hchars, hc⟩ := qualified_head (.inr h.1) h.2
      exact ⟨c, rest, by rw [text, toList_qualify, hchars], .inr ⟨rfl, hc⟩⟩
  | id name => exact ⟨'#', name.toList, by simp [text], .inl ⟨rfl, by decide⟩⟩
  | className name => exact ⟨'.', name.toList, by simp [text], .inl ⟨rfl, by decide⟩⟩
  | attr test => exact ⟨'[', _, h.2.toList_text, .inl ⟨rfl, by decide⟩⟩

theorem mark_not_element {c : Char} (hmark : c ∈ ['#', '.', '[']) :
    ¬(c = '*' ∨ c ∉ specials) := by
  simp only [List.mem_cons, List.not_mem_nil, or_false] at hmark
  rcases hmark with rfl | rfl | rfl <;> decide

/-- Which kind of simple selector follows can be seen from its first character. -/
theorem mark_unique {a b : Simple} {r s : List Char} (ha : a.Plain) (hb : b.Plain)
    (h : a.text.toList ++ r = b.text.toList ++ s) : a.mark = b.mark := by
  obtain ⟨c, restA, htextA, hmarkA⟩ := ha.head
  obtain ⟨d, restB, htextB, hmarkB⟩ := hb.head
  rw [htextA, htextB] at h
  obtain rfl : c = d := (List.cons.inj h).1
  rcases hmarkA with ⟨hmarkA, hc⟩ | ⟨hmarkA, hc⟩
  · rcases hmarkB with ⟨hmarkB, -⟩ | ⟨-, hother⟩
    · rw [hmarkA, hmarkB]
    · exact absurd hother (mark_not_element hc)
  · rcases hmarkB with ⟨-, hother⟩ | ⟨hmarkB, -⟩
    · exact absurd hc (mark_not_element hother)
    · rw [hmarkA, hmarkB]

theorem readsOff_simple :
    ReadsOff (fun s : Simple => s.text.toList) Simple.normalize Simple.Plain
      (EndsWith behindSimple) := by
  intro a b r s ha hb hr hs h
  -- only selectors with the same mark can have the same text
  have hmark := mark_unique ha hb h
  have hr' := hr.mono behindSimple_subset
  have hs' := hs.mono behindSimple_subset
  cases a with
  | universal spaceA =>
      cases b with
      | universal spaceB =>
          obtain ⟨hspace, -, hrest⟩ := qualify_unique (.inl rfl) ha (.inl rfl) hb hr hs h
          exact ⟨congrArg Simple.universal hspace, hrest⟩
      | type nameB spaceB =>
          obtain ⟨-, hname, -⟩ := qualify_unique (.inl rfl) ha (.inr hb.1) hb.2 hr hs h
          exact absurd hname (star_ne_name hb.1)
      | id nameB | className nameB | attr testB => exact absurd hmark (by simp [Simple.mark])
  | type nameA spaceA =>
      cases b with
      | universal spaceB =>
          obtain ⟨-, hname, -⟩ := qualify_unique (.inr ha.1) ha.2 (.inl rfl) hb hr hs h
          exact absurd hname.symm (star_ne_name ha.1)
      | type nameB spaceB =>
          obtain ⟨hspace, hname, hrest⟩ :=
            qualify_unique (.inr ha.1) ha.2 (.inr hb.1) hb.2 hr hs h
          exact ⟨by rw [Simple.normalize, Simple.normalize, hspace, hname], hrest⟩
      | id nameB | className nameB | attr testB => exact absurd hmark (by simp [Simple.mark])
  | id nameA =>
      cases b with
      | id nameB =>
          have hname : nameA.toList ++ r = nameB.toList ++ s := by simpa [Simple.text] using h
          obtain ⟨hid, hrest⟩ := readsOff_name ha hb hr' hs' hname
          exact ⟨congrArg Simple.id hid, hrest⟩
      | universal spaceB | type nameB spaceB | className nameB | attr testB =>
          exact absurd hmark (by simp [Simple.mark])
  | className nameA =>
      cases b with
      | className nameB =>
          have hname : nameA.toList ++ r = nameB.toList ++ s := by simpa [Simple.text] using h
          obtain ⟨hclass, hrest⟩ := readsOff_name ha hb hr' hs' hname
          exact ⟨congrArg Simple.className hclass, hrest⟩
      | universal spaceB | type nameB spaceB | id nameB | attr testB =>
          exact absurd hmark (by simp [Simple.mark])
  | attr testA =>
      cases b with
      | attr testB =>
          obtain ⟨htest, hrest⟩ := readsOff_attribute ha hb trivial trivial h
          exact ⟨congrArg Simple.attr htest, hrest⟩
      | universal spaceB | type nameB spaceB | id nameB | className nameB =>
          exact absurd hmark (by simp [Simple.mark])

/-! ## Sequences -/

/-- What may stand behind a simple selector begins the next one, or ends the list. -/
def behindSimples : List Char := [' ', ',']

/-- A simple selector that is not the first one begins with a mark. -/
theorem Simple.Plain.head_of_not_element {s : Simple} (h : s.Plain) (hs : s.isElement = false) :
    ∃ c rest, s.text.toList = c :: rest ∧ c ∈ ['#', '.', '['] := by
  obtain ⟨c, rest, htext, ⟨-, hc⟩ | ⟨hmark, -⟩⟩ := h.head
  · exact ⟨c, rest, htext, hc⟩
  · cases s <;> simp_all [isElement, mark]

/-- The characters of simple selectors that stand one behind the other. -/
def spellSimples (simples : List Simple) : List Char := simples.flatMap fun s => s.text.toList

theorem toList_join_text (simples : List Simple) :
    (String.join (simples.map Simple.text)).toList = spellSimples simples := by
  rw [String.toList_join, spellSimples, List.flatMap_map]

theorem PlainRest.behind {simples : List Simple} (h : PlainRest simples) {r : List Char}
    (hr : EndsWith behindSimples r) : EndsWith behindSimple (spellSimples simples ++ r) := by
  cases simples with
  | nil =>
      have hsubset : behindSimples ⊆ behindSimple := by decide
      exact hr.mono hsubset
  | cons s simples =>
      obtain ⟨hplain, helement⟩ := h s (by simp)
      obtain ⟨c, rest, htext, hc⟩ := hplain.head_of_not_element helement
      rw [spellSimples, List.flatMap_cons, htext]
      have hsubset : ['#', '.', '['] ⊆ behindSimple := by decide
      exact endsWith_cons (hsubset hc) _

/-- Where a sequence goes on with another simple selector, it cannot end. -/
theorem PlainRest.ne_behind {s : Simple} {simples : List Simple} (h : PlainRest (s :: simples))
    {r t : List Char} (hr : EndsWith behindSimples r) : spellSimples (s :: simples) ++ t ≠ r := by
  obtain ⟨hplain, helement⟩ := h s (by simp)
  obtain ⟨c, rest, htext, hc⟩ := hplain.head_of_not_element helement
  rw [spellSimples, List.flatMap_cons, htext]
  rintro rfl
  have hdisjoint : ∀ c ∈ ['#', '.', '['], c ∉ behindSimples := by simp [behindSimples]
  exact hdisjoint c hc (hr c rfl)

theorem readsOff_rest :
    ReadsOff spellSimples (List.map Simple.normalize) PlainRest (EndsWith behindSimples) := by
  intro a
  induction a with
  | nil =>
      intro b r s _ hb hr _ h
      cases b with
      | nil => exact ⟨rfl, h⟩
      | cons s b => exact absurd h.symm (hb.ne_behind hr)
  | cons x a ih =>
      intro b r s ha hb hr hs h
      cases b with
      | nil => exact absurd h (ha.ne_behind hs)
      | cons y b =>
          have ha' : PlainRest a := fun z hz => ha z (by simp [hz])
          have hb' : PlainRest b := fun z hz => hb z (by simp [hz])
          simp only [spellSimples, List.flatMap_cons, List.append_assoc] at h
          obtain ⟨hfirst, hbehind⟩ := readsOff_simple (ha x (by simp)).1 (hb y (by simp)).1
            (ha'.behind hr) (hb'.behind hs) h
          obtain ⟨hrest, hend⟩ := ih ha' hb' hr hs hbehind
          exact ⟨by rw [List.map_cons, List.map_cons, hfirst, hrest], hend⟩

theorem readsOff_simples :
    ReadsOff spellSimples (List.map Simple.normalize) PlainSimples (EndsWith behindSimples) := by
  intro a b r s ha hb hr hs h
  cases a with
  | nil => exact absurd ha id
  | cons x a =>
      cases b with
      | nil => exact absurd hb id
      | cons y b =>
          simp only [spellSimples, List.flatMap_cons, List.append_assoc] at h
          obtain ⟨hfirst, hbehind⟩ :=
            readsOff_simple ha.1 hb.1 (ha.2.behind hr) (hb.2.behind hs) h
          obtain ⟨hrest, hend⟩ := readsOff_rest ha.2 hb.2 hr hs hbehind
          exact ⟨by rw [List.map_cons, List.map_cons, hfirst, hrest], hend⟩

/-- The characters that no sequence begins with. -/
def notFirst : List Char := [' ', ',', '>', '~', '+']

theorem PlainSimples.head {simples : List Simple} (h : PlainSimples simples) :
    ∃ c rest, spellSimples simples = c :: rest ∧ c ∉ notFirst := by
  cases simples with
  | nil => exact absurd h id
  | cons s simples =>
      obtain ⟨c, rest, htext, hc⟩ := h.1.head
      refine ⟨c, rest ++ spellSimples simples, ?_, ?_⟩
      · rw [spellSimples, List.flatMap_cons, htext]
        rfl
      · have hmarks : ∀ c ∈ ['#', '.', '['], c ∉ notFirst := by simp [notFirst]
        have hspecials : notFirst ⊆ specials := by decide
        rcases hc with ⟨-, hmark⟩ | ⟨-, rfl | hplain⟩
        · exact hmarks c hmark
        · decide
        · exact fun hfirst => hplain (hspecials hfirst)

theorem Sequence.Plain.head {s : Sequence} (h : s.Plain) :
    ∃ c rest, s.text.toList = c :: rest ∧ c ∉ notFirst := by
  cases s with
  | last simples =>
      obtain ⟨c, rest, hchars, hc⟩ := PlainSimples.head h
      exact ⟨c, rest, by rw [text, toList_join_text, hchars], hc⟩
  | chained simples kind target =>
      obtain ⟨c, rest, hchars, hc⟩ := PlainSimples.head h.1
      refine ⟨c, rest ++ (kind.punctuation.toList ++ target.text.toList), ?_, hc⟩
      rw [text, String.toList_append, String.toList_append, toList_join_text, hchars]
      simp

theorem Sequence.Plain.head_append {s : Sequence} (h : s.Plain) (r : List Char) :
    ∃ c rest, s.text.toList ++ r = c :: rest ∧ c ∉ notFirst := by
  obtain ⟨c, rest, htext, hc⟩ := h.head
  exact ⟨c, rest ++ r, by rw [htext, List.cons_append], hc⟩

theorem Sequence.toList_text_chained (simples : List Simple) (kind : CombinatorKind)
    (target : Sequence) : (chained simples kind target).text.toList =
      spellSimples simples ++ (kind.punctuation.toList ++ target.text.toList) := by
  rw [text, String.toList_append, String.toList_append, toList_join_text, List.append_assoc]

/-- The combinator whose punctuation goes on with some characters behind its first space. -/
def CombinatorKind.ofSecond : List Char → CombinatorKind
  | '>' :: _ => child
  | '~' :: _ => follower
  | '+' :: _ => next
  | _ => descendant

/-- The second character tells combinators apart. A descendant has none, but there the next sequence
    begins, and not with the character of another combinator. -/
theorem CombinatorKind.ofSecond_punctuation (kind : CombinatorKind) {c : Char} (hc : c ∉ notFirst)
    (rest : List Char) : ofSecond (kind.punctuation.toList ++ c :: rest).tail = kind := by
  cases kind with
  | descendant =>
      show ofSecond (c :: rest) = descendant
      unfold ofSecond
      split <;> simp_all [notFirst]
  | child | follower | next => rfl

theorem readsOff_punctuation :
    ReadsOff (fun kind : CombinatorKind => kind.punctuation.toList) id (fun _ => True)
      (fun r => ∃ c rest, r = c :: rest ∧ c ∉ notFirst) := by
  intro a b r s _ _ hr hs h
  obtain ⟨c, restA, rfl, hc⟩ := hr
  obtain ⟨d, restB, rfl, hd⟩ := hs
  dsimp only at h
  have hkind : a = b := by
    rw [← a.ofSecond_punctuation hc restA, h, b.ofSecond_punctuation hd restB]
  subst hkind
  exact ⟨rfl, List.append_cancel_left h⟩

theorem punctuation_endsWith (kind : CombinatorKind) (r : List Char) :
    EndsWith behindSimples (kind.punctuation.toList ++ r) := by
  cases kind <;> exact endsWith_cons (by decide) _

theorem comma_subset : [','] ⊆ behindSimples := by decide

theorem ne_punctuation {r : List Char} (hr : EndsWith [','] r) (kind : CombinatorKind)
    (s : List Char) : r ≠ kind.punctuation.toList ++ s := by
  rintro rfl
  cases kind <;> exact absurd (hr ' ' rfl) (by decide)

/-- A chain that ends cannot be taken for one that goes on. -/
theorem last_ne_chained {a b : List Simple} (ha : PlainSimples a) (hb : PlainSimples b)
    {r : List Char} (hr : EndsWith [','] r) (kind : CombinatorKind) (target : Sequence)
    (s : List Char) :
    (Sequence.last a).text.toList ++ r ≠ (Sequence.chained b kind target).text.toList ++ s := by
  intro h
  rw [Sequence.toList_text_chained, Sequence.text, toList_join_text, List.append_assoc,
    List.append_assoc] at h
  obtain ⟨-, hbehind⟩ :=
    readsOff_simples ha hb (hr.mono comma_subset) (punctuation_endsWith kind _) h
  exact ne_punctuation hr kind _ hbehind

theorem readsOff_sequence :
    ReadsOff (fun s : Sequence => s.text.toList) Sequence.normalize Sequence.Plain
      (EndsWith [',']) := by
  intro a
  induction a with
  | last simplesA =>
      intro b r s ha hb hr hs h
      cases b with
      | last simplesB =>
          simp only [Sequence.text, toList_join_text] at h
          obtain ⟨hsimples, hrest⟩ :=
            readsOff_simples ha hb (hr.mono comma_subset) (hs.mono comma_subset) h
          exact ⟨congrArg Sequence.last hsimples, hrest⟩
      | chained simplesB kindB targetB =>
          exact absurd h (last_ne_chained ha hb.1 hr kindB targetB s)
  | chained simplesA kindA targetA ih =>
      intro b r s ha hb hr hs h
      cases b with
      | last simplesB => exact absurd h.symm (last_ne_chained hb ha.1 hs kindA targetA r)
      | chained simplesB kindB targetB =>
          simp only [Sequence.toList_text_chained, List.append_assoc] at h
          obtain ⟨hsimples, hbehind⟩ := readsOff_simples ha.1 hb.1
            (punctuation_endsWith kindA _) (punctuation_endsWith kindB _) h
          -- the right-hand sequences begin with characters that are in no punctuation
          obtain ⟨hkind, htargets⟩ := readsOff_punctuation trivial trivial
            (ha.2.head_append r) (hb.2.head_append s) hbehind
          obtain ⟨htarget, hrest⟩ := ih ha.2 hb.2 hr hs htargets
          cases hkind
          exact ⟨by rw [Sequence.normalize, Sequence.normalize, hsimples, htarget], hrest⟩

/-! ## Groups -/

/-- The characters of the sequences behind the first one of a group. -/
def spellBehind (sequences : List Sequence) : List Char :=
  sequences.flatMap fun s => Group.separator.toList ++ s.text.toList

theorem Group.toList_text_cons (s : Sequence) (sequences : List Sequence) :
    (Group.mk (s :: sequences)).text.toList = s.text.toList ++ spellBehind sequences := by
  unfold text
  induction sequences generalizing s with
  | nil => simp [spellBehind]
  | cons t sequences ih =>
      rw [List.map_cons, List.map_cons, String.intercalate_cons_cons, String.toList_append,
        String.toList_append, ← List.map_cons, ih, spellBehind, spellBehind, List.flatMap_cons,
        List.append_assoc, List.append_assoc]

/-- Behind a sequence there is a comma or nothing. -/
theorem endsWith_spellBehind (sequences : List Sequence) :
    EndsWith [','] (spellBehind sequences) := by
  cases sequences with
  | nil => exact endsWith_nil _
  | cons s sequences => exact endsWith_cons (by decide) _

theorem spellBehind_unique {a : List Sequence} :
    ∀ {b : List Sequence}, (∀ s ∈ a, s.Plain) → (∀ s ∈ b, s.Plain) →
      spellBehind a = spellBehind b → a.map Sequence.normalize = b.map Sequence.normalize := by
  induction a with
  | nil =>
      intro b _ _ h
      cases b with
      | nil => rfl
      | cons y b => exact absurd h.symm (List.cons_ne_nil _ _)
  | cons x a ih =>
      intro b ha hb h
      cases b with
      | nil => exact absurd h (List.cons_ne_nil _ _)
      | cons y b =>
          simp only [spellBehind, List.flatMap_cons, List.append_assoc] at h
          obtain ⟨hfirst, hbehind⟩ := readsOff_sequence (ha x (by simp)) (hb y (by simp))
            (endsWith_spellBehind a) (endsWith_spellBehind b) (List.append_cancel_left h)
          rw [List.map_cons, List.map_cons, hfirst,
            ih (fun z hz => ha z (by simp [hz])) (fun z hz => hb z (by simp [hz])) hbehind]

/-- A group that has a sequence has a text. -/
theorem Group.text_ne_empty {s : Sequence} (h : s.Plain) (sequences : List Sequence) :
    (Group.mk (s :: sequences)).text ≠ (Group.mk []).text := by
  obtain ⟨c, rest, htext, -⟩ := h.head
  intro heq
  have hchars := congrArg String.toList heq
  rw [toList_text_cons, htext] at hchars
  exact absurd hchars (List.cons_ne_nil _ _)

theorem Group.normalize_eq_of_text_eq {a b : Group} (ha : a.Plain) (hb : b.Plain)
    (h : a.text = b.text) : a.normalize = b.normalize := by
  obtain ⟨sequencesA⟩ := a
  obtain ⟨sequencesB⟩ := b
  cases sequencesA with
  | nil =>
      cases sequencesB with
      | nil => rfl
      | cons y b => exact absurd h.symm (text_ne_empty (hb y (by simp)) b)
  | cons x a =>
      cases sequencesB with
      | nil => exact absurd h (text_ne_empty (ha x (by simp)) a)
      | cons y b =>
          have hchars := congrArg String.toList h
          rw [toList_text_cons, toList_text_cons] at hchars
          obtain ⟨hfirst, hbehind⟩ := readsOff_sequence (ha x (by simp)) (hb y (by simp))
            (endsWith_spellBehind a) (endsWith_spellBehind b) hchars
          have hrest := spellBehind_unique (fun z hz => ha z (by simp [hz]))
            (fun z hz => hb z (by simp [hz])) hbehind
          rw [normalize, normalize, List.map_cons, List.map_cons, hfirst, hrest]

/-- **The text can be read in one way.** Two groups of plain names whose explanations spell the same
    text are equal up to prefixes that say nothing. -/
theorem normalize_eq_of_text_explain_eq {a b : Group} (ha : a.Plain) (hb : b.Plain)
    (h : a.explain.map Explainer.text = b.explain.map Explainer.text) :
    a.normalize = b.normalize := by
  rw [a.text_explain, b.text_explain] at h
  exact Group.normalize_eq_of_text_eq ha hb (Except.ok.inj h)

/-- Two spellings of a child in any namespace, with a quote in a literal. -/
theorem normalize_eq_of_text_explain_eq_star :
    (Group.mk [.chained [.type "a" (some "*")] .child (.last [.attr ⟨"b", .equals, some "\""⟩]),
        .last [.id "c"]]).normalize =
      (Group.mk [.chained [.type "a" none] .child (.last [.attr ⟨"b", .equals, some "\""⟩]),
        .last [.id "c"]]).normalize :=
  normalize_eq_of_text_explain_eq (by decide) (by decide) (by decide)

end SelectorExplain
