import SelectorExplain.Proofs.Json.Forms

set_option autoImplicit false

/-! # Reading a record from any text of it

What is gathered while a record is read depends only on which fields have been read, not on their
order (`ReadsRecord`). So the members of an object may come in any order and the required ones will
have been read in the end, while those that mean nothing change nothing; and the items of a list are
taken for the fields one after the other, up to some that may be left out. -/

namespace SelectorExplain

namespace Json

variable {α β σ : Type}

/-! ## Fields -/

/-- What is kept of a field when fields with these names have been read. -/
def kept (name : String) (b : β) (names : List String) : Option β :=
  if name ∈ names then some b else none

@[simp] theorem kept_cons_self (name : String) (b : β) (names : List String) :
    kept name b (name :: names) = some b := by
  simp [kept]

theorem kept_cons_of_ne {name other : String} (h : name ≠ other) (b : β) (names : List String) :
    kept name b (other :: names) = kept name b names := by
  simp [kept, h]

theorem kept_of_mem {name : String} {names : List String} (h : name ∈ names) (b : β) :
    kept name b names = some b :=
  if_pos h

/-- An absent value is as good as one that has not been read. -/
theorem join_kept {name : String} {b : Option β} {names : List String}
    (h : b.isNone = false → name ∈ names) : (kept name b names).join = b := by
  cases b with
  | none =>
      unfold kept
      split <;> rfl
  | some b => rw [kept_of_mem (h rfl), Option.join_some]

/-- A field reader reads the texts of a field, and what is gathered then is what is gathered when
    that field has been read too. -/
structure ReadsField (gathered : List String → σ) (f : FieldReader σ) (t : FieldText) : Prop where
  name : f.name = t.name
  required : t.omissible = true → f.required = false
  unseen : ∀ {names}, t.name ∉ names → f.seen (gathered names) = false
  starts : ∀ {v}, t.value v → StartsItem v
  read : ∀ {names v w}, t.value v → Blanks w →
    Gives (f.read (gathered names)) (w ++ v) (.ok (gathered (t.name :: names))) Delimited

section

variable {gathered : List String → σ} {name : String} {value : Decoder β}

theorem isSome_kept_of_not_mem {names : List String} (h : name ∉ names) (b : β) :
    (kept name b names).isSome = false := by
  simp [kept, h]

theorem readsField_of_gives {get : σ → Option β} {set : σ → β → σ} {b : β}
    {texts : List Char → Prop} (hstarts : ∀ {v}, texts v → StartsItem v)
    (h : ∀ {v w}, texts v → Blanks w → Gives value (w ++ v) (.ok b) Delimited)
    (hget : ∀ names, get (gathered names) = kept name b names)
    (hset : ∀ names, set (gathered names) b = gathered (name :: names)) :
    ReadsField gathered (.of name true get set value) (.required name texts) where
  name := rfl
  required := nofun
  unseen {names} hnames := by
    show (get (gathered names)).isSome = false
    rw [hget]
    exact isSome_kept_of_not_mem hnames b
  starts := hstarts
  read {names v w} hv hw := by
    show Gives _ _ (.ok (gathered (name :: names))) _
    rw [← hset]
    exact (h hv hw).andReturn (set (gathered names))

theorem readsField_required {get : σ → Option β} {set : σ → β → σ} {b : β}
    {texts : List Char → Prop} (h : Accepts value texts b)
    (hget : ∀ names, get (gathered names) = kept name b names)
    (hset : ∀ names, set (gathered names) b = gathered (name :: names)) :
    ReadsField gathered (.of name true get set value) (.required name texts) :=
  readsField_of_gives (fun hv => (h.opens hv).startsItem) h.gives hget hset

theorem readsField_optional {get : σ → Option (Option β)} {set : σ → Option β → σ}
    {texts : β → List Char → Prop} {b : Option β} (h : ∀ x ∈ b, Accepts value (texts x) x)
    (hget : ∀ names, get (gathered names) = kept name b names)
    (hset : ∀ names, set (gathered names) b = gathered (name :: names)) :
    ReadsField gathered (.of name false get set (option value)) (.optional name (b.map texts)) where
  name := rfl
  required := fun _ => rfl
  unseen {names} hnames := by
    show (get (gathered names)).isSome = false
    rw [hget]
    exact isSome_kept_of_not_mem hnames b
  starts {v} hv := by
    cases b with
    | none =>
        obtain rfl : v = nullText := hv
        exact ⟨'n', _, rfl, by decide, by decide⟩
    | some b => exact ((h b rfl).opens hv).startsItem
  read {names v w} hv hw := by
    have hoption : Gives (option value) (w ++ v) (.ok b) Delimited := by
      cases b with
      | none =>
          obtain rfl : v = nullText := hv
          exact gives_option_null hw
      | some b => exact (h b rfl).gives_option hv hw
    show Gives _ _ (.ok (gathered (name :: names))) _
    rw [← hset]
    exact hoption.andReturn (set (gathered names))

end

/-! ## Members in any order -/

/-- A member that gives a field. -/
def GivesField (f : FieldText) (m : List Char × List Char) : Prop :=
  Denotes m.1 f.name.toList ∧ f.value m.2

/-- Two members for the same field. -/
def Rivals (fields : List FieldText) (m m' : List Char × List Char) : Prop :=
  ∃ f ∈ fields, Denotes m.1 f.name.toList ∧ Denotes m'.1 f.name.toList

theorem Rivals.symm {fields : List FieldText} {m m' : List Char × List Char}
    (h : Rivals fields m m') : Rivals fields m' m := by
  obtain ⟨f, hf, hm, hm'⟩ := h
  exact ⟨f, hf, hm', hm⟩

theorem Denotes.key_unique {literal : List Char} {key key' : String}
    (h : Denotes literal key.toList) (h' : Denotes literal key'.toList) : key = key' :=
  String.toList_inj.1 (h.unique h')

theorem Unknown.not_denotes {fields : List FieldText} {m : List Char × List Char}
    (h : Unknown fields m) {f : FieldText} (hf : f ∈ fields) : ¬Denotes m.1 f.name.toList := by
  obtain ⟨-, key, hkey, hnone⟩ := h
  intro hname
  exact hnone f hf (hname.key_unique hkey)

/-- Members that give a record, in any order. -/
structure GivesRecord (fields : List FieldText) (members : List (List Char × List Char)) :
    Prop where
  meant : ∀ m ∈ members, (∃ f ∈ fields, GivesField f m) ∨ Unknown fields m
  once : members.Pairwise fun m m' => ¬Rivals fields m m'
  required : ∀ f ∈ fields, f.omissible = false → ∃ m ∈ members, Denotes m.1 f.name.toList

theorem GivesRecord.perm {fields : List FieldText} {members members' : List (List Char × List Char)}
    (h : GivesRecord fields members) (hperm : members'.Perm members) :
    GivesRecord fields members' where
  meant m hm := h.meant m (hperm.subset hm)
  once := (hperm.pairwise_iff fun hrivals h => hrivals h.symm).2 h.once
  required f hf hrequired := by
    obtain ⟨m, hm, hname⟩ := h.required f hf hrequired
    exact ⟨m, hperm.symm.subset hm, hname⟩

theorem Given.meant {fields : List FieldText} {known : List (List Char × List Char)}
    (h : Given fields known) : ∀ m ∈ known, ∃ f ∈ fields, GivesField f m := by
  induction h with
  | nil => nofun
  | field hkey hv h ih =>
      rintro m hm
      rcases List.mem_cons.1 hm with rfl | hm
      · exact ⟨_, List.mem_cons_self, hkey, hv⟩
      · obtain ⟨f, hf, hfield⟩ := ih m hm
        exact ⟨f, List.mem_cons_of_mem _ hf, hfield⟩
  | omitted hf h ih =>
      intro m hm
      obtain ⟨f, hf, hfield⟩ := ih m hm
      exact ⟨f, List.mem_cons_of_mem _ hf, hfield⟩

theorem Given.required {fields : List FieldText} {known : List (List Char × List Char)}
    (h : Given fields known) :
    ∀ f ∈ fields, f.omissible = false → ∃ m ∈ known, Denotes m.1 f.name.toList := by
  induction h with
  | nil => nofun
  | field hkey hv h ih =>
      intro f hf hrequired
      rcases List.mem_cons.1 hf with rfl | hf
      · exact ⟨_, List.mem_cons_self, hkey⟩
      · obtain ⟨m, hm, hname⟩ := ih f hf hrequired
        exact ⟨m, List.mem_cons_of_mem _ hm, hname⟩
  | omitted homissible h ih =>
      intro f hf hrequired
      rcases List.mem_cons.1 hf with rfl | hf
      · rw [homissible] at hrequired
        cases hrequired
      · exact ih f hf hrequired

/-- No two of the members denote the same key. -/
theorem Given.once {fields : List FieldText} {known : List (List Char × List Char)}
    (h : Given fields known) (hnames : (fields.map (·.name)).Nodup) :
    known.Pairwise fun m m' =>
      ∀ key : String, Denotes m.1 key.toList → ¬Denotes m'.1 key.toList := by
  induction h with
  | nil => exact .nil
  | @field f fields literal v known hkey hv h ih =>
      rw [List.map_cons, List.nodup_cons] at hnames
      refine .cons (fun m hm key hliteral hname => ?_) (ih hnames.2)
      obtain ⟨g, hg, hfield, -⟩ := h.meant m hm
      rw [hliteral.key_unique hkey] at hname
      rw [hname.key_unique hfield] at hnames
      exact hnames.1 (List.mem_map_of_mem hg)
  | omitted homissible h ih =>
      rw [List.map_cons, List.nodup_cons] at hnames
      exact ih hnames.2

theorem Given.givesRecord {fields : List FieldText} {known unknown : List (List Char × List Char)}
    (h : Given fields known) (hnames : (fields.map (·.name)).Nodup)
    (hunknown : ∀ m ∈ unknown, Unknown fields m) : GivesRecord fields (known ++ unknown) where
  meant m hm := (List.mem_append.1 hm).imp (h.meant m) (hunknown m)
  once := by
    refine List.pairwise_append.2 ⟨?_, ?_, ?_⟩
    · refine (h.once hnames).imp fun hne hrivals => ?_
      obtain ⟨f, -, hm, hm'⟩ := hrivals
      exact hne f.name hm hm'
    · refine List.Pairwise.imp_of_mem (fun hm _ _ hrivals => ?_)
        (List.pairwise_of_forall fun _ _ => trivial)
      obtain ⟨f, hf, hname, -⟩ := hrivals
      exact (hunknown _ hm).not_denotes hf hname
    · rintro m - m' hm' ⟨f, hf, -, hname⟩
      exact (hunknown m' hm').not_denotes hf hname
  required f hf hrequired := by
    obtain ⟨m, hm, hname⟩ := h.required f hf hrequired
    exact ⟨m, List.mem_append_left _ hm, hname⟩

/-! ## Records -/

/-- A record whose fields are read from their texts. What is gathered is a function of the names of
    the fields that have been read, and makes the value once all required fields are among them. -/
structure ReadsRecord (r : Record σ α) (fields : List FieldText) (gathered : List String → σ)
    (a : α) : Prop where
  start : r.start = gathered []
  names : (fields.map (·.name)).Nodup
  reads : List.Forall₂ (ReadsField gathered) r.fields fields
  finish : ∀ names, (∀ f ∈ fields, f.omissible = false → f.name ∈ names) →
    r.finish (gathered names) = .ok a

section

variable {r : Record σ α} {fields : List FieldText} {gathered : List String → σ} {a : α}

theorem find?_of_forall₂ {readers : List (FieldReader σ)}
    (h : List.Forall₂ (ReadsField gathered) readers fields)
    (hnames : (fields.map (·.name)).Nodup) {f : FieldText} (hf : f ∈ fields) :
    ∃ reader, readers.find? (·.name == f.name) = some reader ∧ ReadsField gathered reader f := by
  induction h with
  | nil => cases hf
  | @cons reader g readers fields hreader hrest ih =>
      rw [List.map_cons, List.nodup_cons] at hnames
      rcases List.mem_cons.1 hf with rfl | hf
      · exact ⟨reader, List.find?_cons_of_pos (by simp [hreader.name]), hreader⟩
      · have hne : reader.name ≠ f.name := by
          rw [hreader.name]
          intro heq
          exact hnames.1 (heq ▸ List.mem_map_of_mem hf)
        obtain ⟨found, hfind, hfound⟩ := ih hnames.2 hf
        exact ⟨found, by rw [List.find?_cons_of_neg (by simp [hne]), hfind], hfound⟩

theorem find?_eq_none_of_forall₂ {readers : List (FieldReader σ)}
    (h : List.Forall₂ (ReadsField gathered) readers fields) {key : String}
    (hkey : ∀ f ∈ fields, f.name ≠ key) : readers.find? (·.name == key) = none := by
  induction h with
  | nil => rfl
  | @cons reader g readers fields hreader hrest ih =>
      have hne : reader.name ≠ key := hreader.name ▸ hkey g (by simp)
      rw [List.find?_cons_of_neg (by simp [hne]), ih fun f hf => hkey f (by simp [hf])]

/-- Whatever the order of the members, all their fields have been read in the end. -/
theorem ReadsRecord.gathers (h : ReadsRecord r fields gathered a) {first : Bool}
    {members : List (List Char × List Char)} {t : List Char} (ht : MembersText first members t)
    (hmeant : ∀ m ∈ members, (∃ f ∈ fields, GivesField f m) ∨ Unknown fields m)
    (honce : members.Pairwise fun m m' => ¬Rivals fields m m') (names : List String)
    (hfresh : ∀ m ∈ members, ∀ f ∈ fields, Denotes m.1 f.name.toList → f.name ∉ names) :
    ∃ names', names ⊆ names' ∧
      (∀ m ∈ members, ∀ f ∈ fields, Denotes m.1 f.name.toList → f.name ∈ names') ∧
      Gathers r first (gathered names) t (.ok (gathered names')) := by
  induction ht generalizing names with
  | close hw => exact ⟨names, List.Subset.refl _, nofun, .close hw⟩
  | @member first w w' w₁ w₂ literal v more members hw hw' hw₁ hw₂ hmore ih =>
      rw [List.pairwise_cons] at honce
      have hrest : ∀ m ∈ members, (∃ f ∈ fields, GivesField f m) ∨ Unknown fields m :=
        fun m hm => hmeant m (by simp [hm])
      rcases hmeant (literal, v) (by simp) with ⟨f, hf, hkey, hv⟩ | hunknown
      · -- the field counts as read from here on, and no other member is for it
        have hfresh' : ∀ m ∈ members, ∀ g ∈ fields, Denotes m.1 g.name.toList →
            g.name ∉ f.name :: names := by
          intro m hm g hg hname hmem
          rcases List.mem_cons.1 hmem with heq | hmem
          · exact honce.1 m hm ⟨f, hf, hkey, heq ▸ hname⟩
          · exact hfresh m (by simp [hm]) g hg hname hmem
        obtain ⟨names', hsubset, hread, hgathers⟩ := ih hrest honce.2 _ hfresh'
        obtain ⟨reader, hfind, hreader⟩ := find?_of_forall₂ h.reads h.names hf
        have hunseen := hreader.unseen (hfresh (literal, v) (by simp) f hf hkey)
        refine ⟨names', fun n hn => hsubset (by simp [hn]), ?_,
          .member hw hw' hw₁ hkey hfind hunseen (hreader.read hv hw₂) hgathers⟩
        intro m hm g hg hname
        rcases List.mem_cons.1 hm with rfl | hm
        · rw [hname.key_unique hkey]
          exact hsubset (by simp)
        · exact hread m hm g hg hname
      · obtain ⟨names', hsubset, hread, hgathers⟩ := ih hrest honce.2 names
          fun m hm => hfresh m (by simp [hm])
        obtain ⟨hvalid, key, hkey, hnone⟩ := hunknown
        have hfind := find?_eq_none_of_forall₂ h.reads hnone
        refine ⟨names', hsubset, ?_,
          .unknown hw hw' hw₁ hkey hfind (hvalid.gives_skipValue hw₂) hgathers⟩
        intro m hm g hg hname
        rcases List.mem_cons.1 hm with rfl | hm
        · exact absurd (hname.key_unique hkey) (hnone g hg)
        · exact hread m hm g hg hname

theorem ReadsRecord.gives_object (h : ReadsRecord r fields gathered a)
    {members : List (List Char × List Char)} (hmembers : GivesRecord fields members)
    {t w : List Char} (ht : MembersText true members t) (hw : Blanks w)
    {behind : List Char → Prop} :
    Gives (r.read true) (w ++ '\x7b' :: (t ++ ['\x7d'])) (.ok a) behind := by
  obtain ⟨names, -, hread, hgathers⟩ := h.gathers ht hmembers.meant hmembers.once []
    fun _ _ _ _ _ => List.not_mem_nil
  rw [← h.start] at hgathers
  refine hgathers.gives_read (g := fun _ => a) ?_ hw
  rintro s ⟨⟩
  refine h.finish names fun f hf hrequired => ?_
  obtain ⟨m, hm, hname⟩ := hmembers.required f hf hrequired
  exact hread m hm f hf hname

/-! ## Records as lists -/

/-- What comes behind is the end of a list, with these blanks in front of it. -/
def ClosesBehind (w rest : List Char) : Prop := ∃ more, rest = w ++ ']' :: more

/-- A list whose end stands behind blanks. -/
theorem Gives.inList_blanks {inside : Decoder α} {t w : List Char} (hw : Blanks w)
    (h : Gives inside t (.ok a) (ClosesBehind w)) {behind : List Char → Prop} :
    Gives (Json.inList true inside) ('[' :: (t ++ (w ++ [']']))) (.ok a) behind := by
  refine Gives.eat ⟨fun rest p _ => ?_⟩
  have hend : Gives endList (w ++ [']']) (.ok ()) Anything :=
    Gives.token hw (by decide) ⟨fun _ _ _ => ⟨rfl, rfl⟩⟩
  obtain ⟨q, hq⟩ := fits_ok_iff.1 (h.fits (w ++ ']' :: rest) p ⟨rest, rfl⟩)
  obtain ⟨q', hq'⟩ := fits_ok_iff.1 (hend.fits rest q trivial)
  rw [List.append_assoc, List.singleton_append] at hq'
  rw [List.append_assoc, List.append_assoc, List.singleton_append]
  simp only [closedBy, hq, hq']
  exact ⟨rfl, rfl⟩

/-- The list ends before some fields, none of which is required. The blanks in front of its end are
    passed over unless there is no such field. -/
theorem gives_positional_omitted {readers : List (FieldReader σ)}
    (hreaders : ∀ f ∈ readers, f.required = false) {w : List Char} (hw : Blanks w) (index : Nat)
    (s : σ) : ∃ u w', w = u ++ w' ∧ Blanks w' ∧
      Gives (r.positional index readers s) u (.ok s) (ClosesBehind w') := by
  induction readers generalizing w index with
  | nil => exact ⟨[], w, rfl, hw, gives_pure s⟩
  | cons f readers ih =>
      obtain ⟨u, w', hnil, -, hrest⟩ := ih (fun g hg => hreaders g (by simp [hg])) blanks_nil
        (index + 1)
      obtain ⟨rfl, rfl⟩ := List.append_eq_nil_iff.1 hnil.symm
      refine ⟨w, [], by simp, blanks_nil, ?_⟩
      rw [← List.append_nil w]
      refine (gives_moreItems_end hw (index == 0)).bind ?_ fun rest hclose => hclose
      simp only [Bool.false_eq_true, if_false, hreaders f (by simp)]
      exact hrest

theorem required_of_forall₂ {readers : List (FieldReader σ)}
    (h : List.Forall₂ (ReadsField gathered) readers fields)
    (homissible : ∀ f ∈ fields, f.omissible = true) : ∀ f ∈ readers, f.required = false := by
  induction h with
  | nil => nofun
  | @cons reader g readers fields hreader hrest ih =>
      rw [List.forall_mem_cons]
      exact ⟨hreader.required (homissible g (by simp)), ih fun f hf => homissible f (by simp [hf])⟩

/-- The items are taken for the fields, one after the other. -/
theorem InOrder.gives_positional {items : List (List Char)} (h : InOrder fields items)
    {readers : List (FieldReader σ)} (hreaders : List.Forall₂ (ReadsField gathered) readers fields)
    (index : Nat) {t : List Char} (ht : ItemsText (index == 0) items t) (names : List String) :
    ∃ u w names', t = u ++ w ∧ Blanks w ∧ names ⊆ names' ∧
      (∀ f ∈ fields, f.omissible = false → f.name ∈ names') ∧
      Gives (r.positional index readers (gathered names)) u (.ok (gathered names'))
        (ClosesBehind w) := by
  induction h generalizing readers index t names with
  | omitted homissible =>
      obtain ⟨hw⟩ := ht
      obtain ⟨u, w, rfl, hw', hgives⟩ := gives_positional_omitted (r := r)
        (required_of_forall₂ hreaders homissible) hw index (gathered names)
      refine ⟨u, w, names, rfl, hw', List.Subset.refl _, fun f hf hrequired => ?_, hgives⟩
      rw [homissible f hf] at hrequired
      cases hrequired
  | @field f fields v items hv h ih =>
      rcases hreaders with _ | ⟨hreader, hrest⟩
      rcases ht with _ | ⟨hw, hw', hmore⟩
      obtain ⟨u, w, names', rfl, hblanks, hsubset, hread, hgives⟩ := ih hrest (index + 1)
        hmore (f.name :: names)
      have hvalue : Gives _ v (.ok (gathered (f.name :: names))) Delimited :=
        hreader.read hv blanks_nil
      refine ⟨_, w, names', by simp only [List.append_assoc], hblanks,
        fun n hn => hsubset (by simp [hn]), ?_,
        (gives_moreItems hw hw' (index == 0)).bind (hvalue.bind hgives ?_) ?_⟩
      · intro g hg hrequired
        rcases List.mem_cons.1 hg with rfl | hg
        · exact hsubset (by simp)
        · exact hread g hg hrequired
      · rintro rest ⟨more, rfl⟩
        rw [← List.append_assoc]
        exact hmore.delimited more
      · intro rest _
        rw [List.append_assoc]
        exact (hreader.starts hv).append _

theorem ReadsRecord.gives_list (h : ReadsRecord r fields gathered a) {items : List (List Char)}
    (hitems : InOrder fields items) {t w : List Char} (ht : ItemsText true items t) (hw : Blanks w)
    {behind : List Char → Prop} :
    Gives (r.read true) (w ++ '[' :: (t ++ [']'])) (.ok a) behind := by
  obtain ⟨u, w', names, rfl, hw', -, hread, hgives⟩ := hitems.gives_positional (r := r) h.reads 0
    ht []
  have hfinished : Gives (r.finished (gathered names)) [] (.ok a) (ClosesBehind w') :=
    gives_finished (h.finish names hread)
  refine Gives.token hw (by decide) ?_
  rw [List.append_assoc]
  refine Gives.inList_blanks hw' ?_
  rw [← List.append_nil u, h.start]
  exact hgives.bind hfinished fun rest hrest => hrest

/-- **A record is read from every text of it.** -/
theorem ReadsRecord.accepts (h : ReadsRecord r fields gathered a) :
    Accepts (r.read true) (RecordText fields) a where
  opens := by
    rintro v (⟨-, -, -, -⟩ | ⟨-, -⟩)
    · exact ⟨'\x7b', _, rfl, by decide⟩
    · exact ⟨'[', _, rfl, by decide⟩
  gives := by
    rintro v w (⟨hknown, hunknown, hmembers, ht⟩ | ⟨hitems, ht⟩) hw
    · have hrecord := (hknown.givesRecord h.names hunknown).perm hmembers
      exact h.gives_object hrecord ht hw
    · exact h.gives_list hitems ht hw

end

end Json

end SelectorExplain
