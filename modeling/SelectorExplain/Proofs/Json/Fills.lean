import SelectorExplain.Proofs.Json.Inversion
import SelectorExplain.Proofs.Json.Records

set_option autoImplicit false

/-! # What has been read of a record

A record that has been read was gathered from its text (`Fills`): from an object by its members, one
after the other, and from a list by its items, one for each field. Either way a field was read if
and only if a value is written for it, and it was made of that value (`Column.gathered`); a field
that is written twice is never read. -/

namespace SelectorExplain

namespace Json

variable {α β σ : Type}

/-! ## What is gathered -/

/-- A member of an object that is read for a field, or passed over. -/
inductive MemberRead (r : Record σ α) (s : σ) (m : List Char × List Char) : σ → Prop
  | field {key : String} {f : FieldReader σ} {s' : σ} (hkey : Denotes m.1 key.toList)
      (hfind : r.fields.find? (·.name == key) = some f) (hseen : f.seen s = false)
      (hread : Makes (f.read s) m.2 s') : MemberRead r s m s'
  | unknown {key : String} (hkey : Denotes m.1 key.toList)
      (hfind : r.fields.find? (·.name == key) = none) : MemberRead r s m s

/-- The members of an object are read one after the other. -/
inductive ObjectRead (r : Record σ α) : σ → List (List Char × List Char) → σ → Prop
  | nil {s : σ} : ObjectRead r s [] s
  | cons {s s' last : σ} {m : List Char × List Char} {members : List (List Char × List Char)}
      (hm : MemberRead r s m s') (hmore : ObjectRead r s' members last) :
      ObjectRead r s (m :: members) last

/-- The items of a list are read for the fields, one after the other. -/
inductive ListRead : List (FieldReader σ) → σ → List (List Char) → σ → Prop
  | nil {fields : List (FieldReader σ)} {s : σ} : ListRead fields s [] s
  | cons {f : FieldReader σ} {fields : List (FieldReader σ)} {s s' last : σ} {v : List Char}
      {items : List (List Char)} (hv : Makes (f.read s) v s')
      (hmore : ListRead fields s' items last) : ListRead (f :: fields) s (v :: items) last

/-- What is gathered of a record, from what is written between its brackets. -/
def Fills (r : Record σ α) (s : σ) : Written → Prop
  | .object members => ObjectRead r r.start members s
  | .list items => ListRead r.fields r.start items s

/-- The readers of the fields stop behind their values. -/
def ConsumesFields (fields : List (FieldReader σ)) : Prop :=
  ∀ f ∈ fields, ∀ s, Consumes (f.read s)

theorem Consumes.field {value : Decoder β} (h : Consumes value) {name : String} {required : Bool}
    {get : σ → Option β} {set : σ → β → σ} (s : σ) :
    Consumes ((FieldReader.of name required get set value).read s) := by
  have hmap : Consumes (set s <$> value) := h.map (set s)
  rw [← bind_pure_comp] at hmap
  exact hmap

theorem ConsumesFields.nil : ConsumesFields ([] : List (FieldReader σ)) := nofun

theorem ConsumesFields.cons {f : FieldReader σ} {fields : List (FieldReader σ)}
    (hf : ∀ s, Consumes (f.read s)) (h : ConsumesFields fields) : ConsumesFields (f :: fields) :=
  List.forall_mem_cons.2 ⟨hf, h⟩

/-! ## Objects -/

section

variable {r : Record σ α} {t w rest : List Char} {s s' : σ} {p : Position} {here : Cursor}

theorem run_member_inv (hfields : ConsumesFields r.fields) {m : List Char × List Char}
    {w₁ w₂ : List Char} (hliteral : Literal m.1) (hv : Valid m.2) (hw₁ : Blanks w₁)
    (hw₂ : Blanks w₂) (hrest : Delimited rest)
    (h : r.member s ⟨memberOf m.1 w₁ (w₂ ++ m.2) ++ rest, p⟩ = .ok (s', here)) :
    here.rest = rest ∧ MemberRead r s m s' := by
  simp only [memberOf, List.cons_append, List.append_assoc] at h
  obtain ⟨q, hrun⟩ := run_eat_inv h
  obtain ⟨key, ⟨_, q'⟩, hkey, hrun⟩ := run_bind_inv hrun
  obtain ⟨hdenotes, rfl⟩ := hliteral.denotes_of_stringRest hkey
  rw [List.append_cons] at hrun
  have hcolon : Gives colon (w₁ ++ [':']) (.ok ()) Anything := gives_colon hw₁
  cases hfind : r.fields.find? (·.name == key) with
  | none =>
      rw [hfind] at hrun
      obtain ⟨q, hrun⟩ := hcolon.run_bind_inv trivial hrun
      rw [← List.append_assoc] at hrun
      obtain ⟨q, hrun⟩ := (hv.gives_skipValue hw₂).run_bind_inv hrest hrun
      cases hrun
      exact ⟨rfl, .unknown hdenotes hfind⟩
  | some f =>
      rw [hfind] at hrun
      dsimp only at hrun
      cases hseen : f.seen s with
      | true =>
          rw [hseen] at hrun
          cases hrun
      | false =>
          rw [hseen] at hrun
          obtain ⟨q, hrun⟩ := hcolon.run_bind_inv trivial hrun
          have hf := hfields f (List.mem_of_find?_eq_some hfind) s
          exact ⟨hf.rest_eq hv hw₂ hrest hrun,
            .field hdenotes hfind hseen ⟨w₂, rest, q, here, hw₂, hrest, hrun⟩⟩

theorem run_members_inv (hfields : ConsumesFields r.fields) {first : Bool}
    {members : List (List Char × List Char)} (ht : MembersText first members t)
    (hkeys : ∀ m ∈ members, Literal m.1) (hvalues : ∀ m ∈ members, Valid m.2) {budget : List Char}
    (h : r.members budget first s ⟨t ++ '\x7d' :: rest, p⟩ = .ok (s', here)) :
    here.rest = '\x7d' :: rest ∧ ObjectRead r s members s' := by
  induction ht generalizing budget s p with
  | @close first w hw =>
      cases budget with
      | nil => cases h
      | cons b budget =>
          obtain ⟨q, hrun⟩ := (gives_moreMembers_end hw first).run_bind_inv ⟨rest, rfl⟩ h
          cases hrun
          exact ⟨rfl, .nil⟩
  | @member first w w' w₁ w₂ literal v more members hw hw' hw₁ hw₂ hmore ih =>
      cases budget with
      | nil => cases h
      | cons b budget =>
          rw [List.append_assoc, List.append_assoc] at h
          obtain ⟨q, hrun⟩ := (gives_moreMembers hw hw' first).run_bind_inv ⟨_, rfl⟩ h
          obtain ⟨s₁, ⟨_, q'⟩, hmember, hrun⟩ := run_bind_inv hrun
          obtain ⟨rfl, hread⟩ := run_member_inv (m := (literal, v)) hfields
            (hkeys _ List.mem_cons_self) (hvalues _ List.mem_cons_self) hw₁ hw₂
            (hmore.delimited rest) hmember
          obtain ⟨hhere, hrest⟩ := ih (fun m hm => hkeys m (by simp [hm]))
            (fun m hm => hvalues m (by simp [hm])) hrun
          exact ⟨hhere, .cons hread hrest⟩

/-! ## Lists -/

/-- The items are read up to the last field; those that are left come to nothing good. -/
theorem run_positional_inv {fields : List (FieldReader σ)} (hfields : ConsumesFields fields)
    {index : Nat} {items : List (List Char)} (ht : ItemsText (index == 0) items t)
    (hvalid : ∀ v ∈ items, Valid v)
    (h : r.positional index fields s ⟨t ++ ']' :: rest, p⟩ = .ok (s', here)) :
    ∃ read left first t', items = read ++ left ∧ ItemsText first left t' ∧
      here.rest = t' ++ ']' :: rest ∧ ListRead fields s read s' := by
  induction fields generalizing index items t s p with
  | nil =>
      cases h
      exact ⟨[], items, _, t, rfl, ht, rfl, .nil⟩
  | cons f fields ih =>
      have hmore : ConsumesFields fields := fun g hg => hfields g (by simp [hg])
      rcases ht with hw | @⟨first, w, w', v, more, items, hw, hw', htext⟩
      · obtain ⟨q, hrun⟩ := (gives_moreItems_end hw (index == 0)).run_bind_inv ⟨rest, rfl⟩ h
        rw [if_neg Bool.false_ne_true] at hrun
        split at hrun
        · cases hrun
        · have hclose : ItemsText (index + 1 == 0) [] [] := .close blanks_nil
          obtain ⟨read, left, first, t', hitems, ht', hhere, hread⟩ := ih hmore hclose
            (List.forall_mem_nil _) hrun
          obtain ⟨rfl, rfl⟩ := List.append_eq_nil_iff.1 hitems.symm
          cases hread
          exact ⟨[], [], first, t', rfl, ht', hhere, .nil⟩
      · have hv := hvalid v (by simp)
        rw [List.append_assoc, List.append_assoc] at h
        obtain ⟨q, hrun⟩ := (gives_moreItems hw hw' (index == 0)).run_bind_inv
          (hv.startsItem.append _) h
        rw [if_pos rfl] at hrun
        obtain ⟨s₁, ⟨_, q'⟩, hs, hrun⟩ := run_bind_inv hrun
        obtain ⟨rfl, hmakes⟩ := (hfields f (by simp) s).makes hv (htext.delimited rest) hs
        have htail : ItemsText (index + 1 == 0) items more := htext
        obtain ⟨read, left, first, t', rfl, ht', hhere, hread⟩ := ih hmore htail
          (fun x hx => hvalid x (by simp [hx])) hrun
        exact ⟨v :: read, left, first, t', rfl, ht', hhere, .cons hmakes hread⟩

/-! ## Records -/

theorem run_finished_inv {c : Cursor} {a : α} (h : r.finished s c = .ok (a, here)) :
    here = c ∧ r.finish s = .ok a := by
  cases hfinish : r.finish s with
  | error m =>
      rw [Record.finished, hfinish] at h
      cases h
  | ok b =>
      rw [Record.finished, hfinish] at h
      cases h
      exact ⟨rfl, rfl⟩

theorem run_record_inv {room : Bool} (hfields : room = true → ConsumesFields r.fields)
    {written : Written} (hb : Brackets written t) (hw : Blanks w) {a : α}
    (h : r.read room ⟨w ++ (t ++ rest), p⟩ = .ok (a, here)) :
    here.rest = rest ∧ room = true ∧ ∃ s, Fills r s written ∧ r.finish s = .ok a := by
  rcases hb with ⟨hkeys, hvalues, ht⟩ | ⟨hitems, ht⟩
  · rw [List.cons_append, List.append_assoc] at h
    obtain ⟨d, q, rfl, hrun⟩ := run_token_inv hw (c := '\x7b') rfl h
    obtain ⟨rfl, q, between, hinside, hending⟩ := run_inObject_inv hrun
    obtain ⟨s, ⟨_, q'⟩, hread, hfinished⟩ := run_bind_inv hinside
    obtain ⟨rfl, hobject⟩ := run_members_inv (hfields rfl) ht hkeys hvalues hread
    obtain ⟨rfl, hfinish⟩ := run_finished_inv hfinished
    cases hending
    exact ⟨rfl, rfl, s, hobject, hfinish⟩
  · rw [List.cons_append, List.append_assoc] at h
    obtain ⟨d, q, rfl, hrun⟩ := run_token_inv hw (c := '[') rfl h
    obtain ⟨rfl, q, between, hinside, hending⟩ := run_inList_inv hrun
    obtain ⟨s, ⟨_, q'⟩, hread, hfinished⟩ := run_bind_inv hinside
    have htext : ItemsText (0 == 0) _ _ := ht
    obtain ⟨read, left, first, t', rfl, ht', rfl, hlist⟩ := run_positional_inv (hfields rfl)
      htext hitems hread
    obtain ⟨rfl, hfinish⟩ := run_finished_inv hfinished
    obtain ⟨rfl, hhere⟩ := run_endList_inv ht' (fun v hv => hitems v (by simp [hv])) hending
    rw [List.append_nil]
    exact ⟨hhere, rfl, s, hlist, hfinish⟩

theorem Consumes.record {room : Bool} (hfields : room = true → ConsumesFields r.fields) :
    Consumes (r.read room) where
  rest_eq {t w rest p a here} ht hw hrest hrun := by
    obtain ⟨c, more, rfl, hc, -⟩ := ht.startsItem
    by_cases hbracket : c = '['
    · subst hbracket
      obtain ⟨items, hb⟩ := ht.of_bracket
      exact (run_record_inv hfields hb hw hrun).1
    · by_cases hbrace : c = '\x7b'
      · subst hbrace
        obtain ⟨members, hb⟩ := ht.of_brace
        exact (run_record_inv hfields hb hw hrun).1
      · obtain ⟨d, q, hd, hrun⟩ := run_token_inv hw hc hrun
        split at hd
        · next heq => cases heq
        · next heq => exact absurd (Option.some.inj heq) hbracket
        · next heq => exact absurd (Option.some.inj heq) hbrace
        · subst hd
          exact absurd hrun (reject_ne_ok _)

/-- A record is made of what is written between its brackets. -/
theorem Makes.record_inv {room : Bool} (hfields : room = true → ConsumesFields r.fields)
    {written : Written} (hb : Brackets written t) {a : α} (h : Makes (r.read room) t a) :
    room = true ∧ ∃ s, Fills r s written ∧ r.finish s = .ok a := by
  obtain ⟨w, rest, p, here, hw, -, hrun⟩ := h
  exact (run_record_inv hfields hb hw hrun).2

end

/-! ## Fields -/

/-- A value is written for the field of this name, which is at this place in a list. -/
def Written.Has (name : String) (index : Nat) (v : List Char) : Written → Prop
  | object members => ∃ literal, Denotes literal name.toList ∧ (literal, v) ∈ members
  | list items => items[index]? = some v

theorem Written.Has.of_printed {members : List (String × JsonValue)} {name : String} {v : JsonValue}
    (h : (name, v) ∈ members) (index : Nat) :
    (Written.object (members.map printed)).Has name index v.compact.toList :=
  ⟨_, denotes_escaped _, List.mem_map_of_mem h⟩

theorem Brackets.valid_of_has {written : Written} {t v : List Char} (h : Brackets written t)
    {name : String} {index : Nat} (hv : written.Has name index v) : Valid v := by
  rcases h with ⟨-, hvalues, -⟩ | ⟨hitems, -⟩
  · obtain ⟨literal, -, hmem⟩ := hv
    exact hvalues _ hmem
  · exact hitems v (List.mem_of_getElem? hv)

/-- What is there was made of what is written, and is there if something is written. -/
structure Gathered (value : Decoder β) (written : List Char → Prop) (b : Option β) : Prop where
  of_written : ∀ {v}, written v → ∃ x, Makes value v x ∧ b = some x
  written_of : ∀ {x}, b = some x → ∃ v, written v ∧ Makes value v x

theorem gathered_none {value : Decoder β} {written : List Char → Prop} (h : ∀ v, ¬written v) :
    Gathered value written none :=
  ⟨fun hv => absurd hv (h _), nofun⟩

theorem gathered_some {value : Decoder β} {written : List Char → Prop} {v : List Char} {x : β}
    (hx : Makes value v x) (h : ∀ u, written u ↔ u = v) : Gathered value written (some x) where
  of_written {u} hu := by
    obtain rfl := (h u).1 hu
    exact ⟨x, hx, rfl⟩
  written_of := by
    rintro _ ⟨⟩
    exact ⟨v, (h v).2 rfl, hx⟩

/-- The field keeps a value of its own. -/
structure Owns (name : String) (value : Decoder β) (get : σ → Option β) (f : FieldReader σ) :
    Prop where
  name : f.name = name
  seen : ∀ s, f.seen s = (get s).isSome
  makes : ∀ {s v s'}, Makes (f.read s) v s' → ∃ b, Makes value v b ∧ get s' = some b

/-- The field is another one, and leaves the value as it is. -/
structure Leaves (name : String) (get : σ → Option β) (f : FieldReader σ) : Prop where
  name : f.name ≠ name
  get : ∀ {s v s'}, Makes (f.read s) v s' → get s' = get s

/-- A field of a record, and what is kept of it. -/
structure Column (r : Record σ α) (name : String) (index : Nat) (value : Decoder β)
    (get : σ → Option β) : Prop where
  start : get r.start = none
  fields : ∃ before f after, r.fields = before ++ f :: after ∧ before.length = index ∧
    Owns name value get f ∧ ∀ g ∈ before ++ after, Leaves name get g

theorem makes_field_inv {value : Decoder β} {name : String} {required : Bool} {get : σ → Option β}
    {set : σ → β → σ} {s s' : σ} {v : List Char}
    (h : Makes ((FieldReader.of name required get set value).read s) v s') :
    ∃ b, Makes value v b ∧ set s b = s' := by
  have hmap : (FieldReader.of name required get set value).read s = set s <$> value :=
    bind_pure_comp _ _
  rw [hmap] at h
  exact h.map_inv

theorem owns_of {value : Decoder β} {name : String} {required : Bool} {get : σ → Option β}
    {set : σ → β → σ} (h : ∀ s b, get (set s b) = some b) :
    Owns name value get (.of name required get set value) where
  name := rfl
  seen _ := rfl
  makes hmakes := by
    obtain ⟨b, hb, rfl⟩ := makes_field_inv hmakes
    exact ⟨b, hb, h _ b⟩

theorem leaves_of {γ : Type} {value : Decoder γ} {name other : String} (hne : other ≠ name)
    {required : Bool} {get : σ → Option β} {get' : σ → Option γ} {set : σ → γ → σ}
    (h : ∀ s c, get (set s c) = get s) :
    Leaves name get (.of other required get' set value) where
  name := hne
  get hmakes := by
    obtain ⟨c, -, rfl⟩ := makes_field_inv hmakes
    exact h _ c

section

variable {r : Record σ α} {name : String} {index : Nat} {value : Decoder β} {get : σ → Option β}

/-- A field of the record is the one that keeps the value, or leaves it as it is. -/
theorem Column.owns_or_leaves (hcol : Column r name index value get) {f : FieldReader σ}
    (hf : f ∈ r.fields) : Owns name value get f ∨ Leaves name get f := by
  obtain ⟨before, own, after, hfields, -, howns, hothers⟩ := hcol.fields
  rw [hfields, List.mem_append, List.mem_cons] at hf
  rcases hf with hf | rfl | hf
  · exact .inr (hothers f (List.mem_append_left _ hf))
  · exact .inl howns
  · exact .inr (hothers f (List.mem_append_right _ hf))

/-- Only a member with the name of the field is read for it, and only if none was before. -/
theorem Column.memberRead (hcol : Column r name index value get) {s s' : σ}
    {m : List Char × List Char} (h : MemberRead r s m s') :
    (Denotes m.1 name.toList ∧ get s = none ∧ ∃ b, Makes value m.2 b ∧ get s' = some b) ∨
      (¬Denotes m.1 name.toList ∧ get s' = get s) := by
  rcases h with ⟨hkey, hfind, hseen, hread⟩ | ⟨hkey, hfind⟩
  · have hname := List.find?_some hfind
    obtain rfl := eq_of_beq hname
    rcases hcol.owns_or_leaves (List.mem_of_find?_eq_some hfind) with howns | hleaves
    · rw [howns.name] at hkey
      rw [howns.seen, Option.isSome_eq_false_iff, Option.isNone_iff_eq_none] at hseen
      exact .inl ⟨hkey, hseen, howns.makes hread⟩
    · exact .inr ⟨fun h => hleaves.name (hkey.key_unique h), hleaves.get hread⟩
  · refine .inr ⟨fun h => ?_, rfl⟩
    obtain rfl := hkey.key_unique h
    obtain ⟨before, own, after, hfields, -, howns, -⟩ := hcol.fields
    have hmem : own ∈ r.fields := by simp [hfields]
    exact absurd (beq_iff_eq.2 howns.name) (List.find?_eq_none.1 hfind own hmem)

theorem Written.has_cons {m : List Char × List Char} {members : List (List Char × List Char)}
    {v : List Char} : (object (m :: members)).Has name index v ↔
      Denotes m.1 name.toList ∧ v = m.2 ∨ (object members).Has name index v := by
  constructor
  · rintro ⟨literal, hname, hmem⟩
    rcases List.mem_cons.1 hmem with rfl | hmem
    · exact .inl ⟨hname, rfl⟩
    · exact .inr ⟨literal, hname, hmem⟩
  · rintro (⟨hname, rfl⟩ | ⟨literal, hname, hmem⟩)
    · exact ⟨m.1, hname, List.mem_cons_self⟩
    · exact ⟨literal, hname, List.mem_cons_of_mem _ hmem⟩

/-- A value that was there before any member was read stays, and then none is written; otherwise it
    is gathered from the members. -/
theorem Column.gathered_object (hcol : Column r name index value get) {s last : σ}
    {members : List (List Char × List Char)} (h : ObjectRead r s members last) :
    (∀ b, get s = some b → get last = some b ∧ ∀ v, ¬(Written.object members).Has name index v) ∧
      (get s = none → Gathered value (fun v => (Written.object members).Has name index v)
        (get last)) := by
  induction h with
  | nil =>
      have hnone : ∀ v, ¬(Written.object []).Has name index v := by
        rintro v ⟨literal, -, hmem⟩
        cases hmem
      refine ⟨fun b hb => ⟨hb, hnone⟩, fun hget => ?_⟩
      rw [hget]
      exact gathered_none hnone
  | cons hm hmore ih =>
      rcases hcol.memberRead hm with ⟨hname, hget, b, hb, hget'⟩ | ⟨hname, hget⟩
      · -- from here on the value is there, so no other member is for it
        obtain ⟨hlast, hothers⟩ := ih.1 b hget'
        refine ⟨fun c hc => (nomatch hget.symm.trans hc), fun _ => ?_⟩
        rw [hlast]
        refine gathered_some hb fun u => ?_
        simp [Written.has_cons, hname, hothers u]
      · simp only [Written.has_cons, hname, false_and, false_or]
        rw [← hget]
        exact ih

theorem ListRead.get_eq {fields : List (FieldReader σ)} {s last : σ} {items : List (List Char)}
    (h : ListRead fields s items last) (hfields : ∀ f ∈ fields, Leaves name get f) :
    get last = get s := by
  induction h with
  | nil => rfl
  | cons hv hmore ih =>
      rw [ih fun f hf => hfields f (by simp [hf])]
      exact (hfields _ List.mem_cons_self).get hv

/-- The value is gathered from the item at the place of the field. -/
theorem gathered_list {before after : List (FieldReader σ)} {own : FieldReader σ}
    (howns : Owns name value get own) (hothers : ∀ g ∈ before ++ after, Leaves name get g)
    {s last : σ} (hget : get s = none) {items : List (List Char)}
    (h : ListRead (before ++ own :: after) s items last) :
    Gathered value (fun v => items[before.length]? = some v) (get last) := by
  induction before generalizing s items with
  | nil =>
      rcases h with - | ⟨hv, hmore⟩
      · rw [hget]
        exact gathered_none nofun
      · obtain ⟨b, hb, hget'⟩ := howns.makes hv
        rw [hmore.get_eq hothers, hget']
        refine gathered_some hb fun u => ?_
        simp [eq_comm]
  | cons g before ih =>
      rcases h with - | ⟨hv, hmore⟩
      · rw [hget]
        exact gathered_none nofun
      · rw [List.cons_append, List.forall_mem_cons] at hothers
        exact ih hothers.2 ((hothers.1.get hv).trans hget) hmore

/-- **A field has been read if and only if a value is written for it**, in whichever way the record
    is written, and it was made of that value. -/
theorem Column.gathered (hcol : Column r name index value get) {s : σ} {written : Written}
    (h : Fills r s written) :
    Gathered value (fun v => written.Has name index v) (get s) := by
  cases written with
  | object members => exact (hcol.gathered_object h).2 hcol.start
  | list items =>
      obtain ⟨before, own, after, hfields, rfl, howns, hothers⟩ := hcol.fields
      change ListRead r.fields r.start items s at h
      rw [hfields] at h
      exact gathered_list howns hothers hcol.start h

end

end Json

end SelectorExplain
