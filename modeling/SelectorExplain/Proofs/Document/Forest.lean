import Mathlib.Data.List.Perm.Basic
import SelectorExplain.Proofs.Document.Extension
import SelectorExplain.Proofs.Document.Unattached
import SelectorExplain.Proofs.Document.Views

set_option autoImplicit false

/-! # Documents are forests

Elements may be added below any earlier element, so the array of a document is in order of time and
not in document order. It is a forest all the same (`IsForest`): each index has one place, which is
among the roots or among the children of one element, and that element has a smaller index.

Printing goes down from the roots along the indices as they are stored, with no bound of its own.
`Traverses` is that recursion: a derivation is a run of it that ends. In a forest there is one run,
and it meets each element once (`IsForest.traverses_iff`, `IsForest.preorder_perm`). -/

namespace SelectorExplain

/-! ## Lists that refer to themselves -/

/-- A list may consist of some first numbers and of what is below its own members. If only larger
    numbers are below a number, then the first ones determine what the list consists of. -/
theorem perm_of_perm_append_flatMap {below : Nat → List Nat}
    (hbelow : ∀ i, ∀ j ∈ below i, i < j) {first a b : List Nat}
    (ha : a.Perm (first ++ a.flatMap below)) (hb : b.Perm (first ++ b.flatMap below)) :
    a.Perm b := by
  -- a number is below smaller ones only
  have hlower (l : List Nat) (j : Nat) :
      (l.flatMap below).count j = ((l.filter (· < j)).flatMap below).count j := by
    induction l with
    | nil => rfl
    | cons i l ih =>
        rw [List.flatMap_cons, List.count_append, ih, List.filter_cons]
        split
        · rw [List.flatMap_cons, List.count_append]
        · next hi =>
            have hnot : j ∉ below i := fun hj => hi (by simpa using hbelow i j hj)
            rw [List.count_eq_zero.2 hnot, Nat.zero_add]
  rw [List.perm_iff_count]
  intro j
  induction j using Nat.strongRecOn with
  | ind j ih =>
      have hsame : (a.filter (· < j)).Perm (b.filter (· < j)) := by
        rw [List.perm_iff_count]
        intro i
        by_cases hi : i < j
        · rw [List.count_filter (by simpa using hi), List.count_filter (by simpa using hi), ih i hi]
        · rw [List.count_eq_zero.2 (by simp [hi]), List.count_eq_zero.2 (by simp [hi])]
      rw [ha.count_eq, hb.count_eq, List.count_append, List.count_append, hlower a, hlower b,
        (hsame.flatMap_right below).count_eq]

/-- Of the members of a list without repetitions, one is a given one. -/
theorem flatMap_ite_eq {α β : Type} [DecidableEq α] {l : List α} (hl : l.Nodup) {a : α}
    (ha : a ∈ l) (new : List β) : (l.flatMap fun x => if a = x then new else []) = new := by
  induction l with
  | nil => cases ha
  | cons x l ih =>
      obtain ⟨hx, hl⟩ := List.nodup_cons.1 hl
      rw [List.flatMap_cons]
      by_cases hax : a = x
      · subst hax
        have hnone : (l.flatMap fun x => if a = x then new else []) = [] := by
          rw [List.flatMap_eq_nil_iff]
          rintro y hy
          rw [if_neg]
          rintro rfl
          exact hx hy
        rw [if_pos rfl, hnone, List.append_nil]
      · rw [if_neg hax, List.nil_append, ih hl ((List.mem_cons.1 ha).resolve_left hax)]

namespace Document

variable {d : Document}

/-! ## Forests of indices -/

/-- Where an element can be: among the roots, or among the children of an element. -/
def places (d : Document) : List (Option Nat) := none :: (List.range d.size).map some

theorem nodup_places (d : Document) : d.places.Nodup := by
  unfold places
  rw [List.nodup_cons]
  refine ⟨by simp, ?_⟩
  exact List.Pairwise.map some (fun _ _ hne h => hne (Option.some.inj h)) List.nodup_range

theorem mem_places {place : Option Nat} : place ∈ d.places ↔ ∀ id ∈ place, id < d.size := by
  unfold places
  cases place <;> simp

/-- Each element is at one place, below an earlier element if it is no root, and the elements at a
    place are in order of time. -/
structure IsForest (d : Document) : Prop where
  once : (d.places.flatMap d.childrenOf).Perm (List.range d.size)
  lt_child : ∀ id, ∀ child ∈ d.childrenOf (some id), id < child
  increasing : ∀ place, (d.childrenOf place).Pairwise (· < ·)

theorem isForest_empty : IsForest .empty where
  once := .refl []
  lt_child := nofun
  increasing := by
    intro place
    cases place <;> exact .nil

/-- What is anywhere below an element, or a root, is an element. -/
theorem IsForest.lt_size (h : d.IsForest) {place : Option Nat} {id : Nat}
    (hid : id ∈ d.childrenOf place) : id < d.size := by
  by_cases hplace : place ∈ d.places
  · exact List.mem_range.1 (h.once.subset (List.mem_flatMap.2 ⟨place, hplace, hid⟩))
  · -- an index that is no element has no children
    cases place with
    | none => exact absurd (List.mem_cons_self) hplace
    | some parent =>
        rw [mem_places] at hplace
        rw [childrenOf, get?_eq_none (by simpa using hplace)] at hid
        cases hid

theorem places_push (d : Document) (parent : Option Nat) (e : Element) :
    (d.push parent e).places = d.places ++ [some d.size] := by
  unfold places
  rw [size_push, List.range_succ, List.map_append, List.cons_append]
  rfl

section

variable {parent : Option Nat} {e : Element}

/-- Below an element, or among the roots, a new element gets the last place. -/
theorem childrenOf_push_of_lt (hparent : ∀ id ∈ parent, id < d.size) (he : e.children = [])
    (place : Option Nat) : (d.push parent e).childrenOf place =
      d.childrenOf place ++ if parent = place then [d.size] else [] := by
  rw [childrenOf_push d parent he]
  by_cases hplace : parent = place
  · subst hplace
    rw [if_pos ⟨rfl, fun id hid => Nat.le_of_lt (hparent id hid)⟩, if_pos rfl]
  · rw [if_neg fun hboth => hplace hboth.1, if_neg hplace]

/-- A new element below another one is stored as it is. -/
theorem get?_push_size (hparent : ∀ id ∈ parent, id < d.size) :
    (d.push parent e).get? d.size = some e := by
  cases parent with
  | none => rw [get?_push_none, if_pos rfl]
  | some parent =>
      have hlt : parent < d.size := hparent parent rfl
      rw [get?_push_some, if_neg (Nat.ne_of_lt hlt), get?_push_none, if_pos rfl]

/-- A new element gets a place, and all others keep theirs. -/
theorem IsForest.push (h : d.IsForest) (hparent : ∀ id ∈ parent, id < d.size)
    (he : e.children = []) : (d.push parent e).IsForest where
  once := by
    have hchildren := funext (childrenOf_push_of_lt hparent he)
    have hnew : (d.push parent e).childrenOf (some d.size) = [] := by
      rw [childrenOf, get?_push_size hparent]
      exact he
    have hgains : (d.places.flatMap fun place => if parent = place then [d.size] else []) =
        [d.size] := flatMap_ite_eq d.nodup_places (mem_places.2 hparent) [d.size]
    rw [places_push, List.flatMap_append, List.flatMap_singleton, hnew, List.append_nil,
      hchildren, size_push, List.range_succ]
    refine (List.flatMap_append_perm ..).symm.trans ?_
    rw [hgains]
    exact h.once.append_right _
  lt_child := by
    intro id child hchild
    rw [childrenOf_push_of_lt hparent he, List.mem_append] at hchild
    rcases hchild with hchild | hchild
    · exact h.lt_child id child hchild
    · by_cases hid : parent = some id
      · rw [if_pos hid, List.mem_singleton] at hchild
        rw [hchild]
        exact hparent id hid
      · rw [if_neg hid] at hchild
        cases hchild
  increasing := by
    intro place
    rw [childrenOf_push_of_lt hparent he, List.pairwise_append]
    refine ⟨h.increasing place, ?_, ?_⟩
    · split
      · exact List.pairwise_singleton _ _
      · exact .nil
    · -- what is there has smaller indices than what is new
      intro id hid new hnew
      split at hnew
      · rw [List.mem_singleton.1 hnew]
        exact h.lt_size hid
      · cases hnew

end

/-! ## Documents that are built up -/

/-- The element below which a change appends. -/
def Change.parent : Change → Option Nat
  | .element parent _ _ | .text parent _ => parent
  | .clear => none

/-- Documents that come from an empty one by appending below elements, and by discarding all. -/
inductive BuiltUp : Document → Prop
  | empty : BuiltUp .empty
  | changed {d : Document} (h : d.BuiltUp) (c : Change) (hparent : ∀ id ∈ c.parent, id < d.size) :
      BuiltUp (d.changed c)

theorem BuiltUp.isForest (h : d.BuiltUp) : d.IsForest := by
  induction h with
  | empty => exact isForest_empty
  | @changed d _ c hparent ih =>
      cases c with
      | element parent tag operator =>
          rw [Document.changed, append_snd]
          exact ih.push hparent rfl
      | text parent content =>
          rw [Document.changed, append_snd]
          exact ih.push hparent rfl
      | clear => exact isForest_empty

/-! ## Going through a document -/

/-- Going down from some indices along the children that are stored meets the indices `met`, in this
    order, and unfolds to trees. -/
inductive Traverses (d : Document) : (ids met : List Nat) → List Tree → Prop
  | nil : Traverses d [] [] []
  | cons {id : Nat} {e : Element} {ids below behind : List Nat} {children rest : List Tree}
      (hget : d.get? id = some e) (hbelow : Traverses d e.children below children)
      (hrest : Traverses d ids behind rest) :
      Traverses d (id :: ids) (id :: (below ++ behind))
        (.node e.tag e.operator e.text children :: rest)

/-- Going down from one index. -/
theorem Traverses.single {id : Nat} {e : Element} {below : List Nat} {children : List Tree}
    (hget : d.get? id = some e) (hbelow : d.Traverses e.children below children) :
    d.Traverses [id] (id :: below) [.node e.tag e.operator e.text children] := by
  have h := Traverses.cons hget hbelow .nil
  rwa [List.append_nil] at h

theorem Traverses.append {ids ids' met met' : List Nat} {ts ts' : List Tree}
    (h : d.Traverses ids met ts) (h' : d.Traverses ids' met' ts') :
    d.Traverses (ids ++ ids') (met ++ met') (ts ++ ts') := by
  induction h with
  | nil => exact h'
  | cons hget hbelow _ _ ih =>
      have hall := Traverses.cons hget hbelow ih
      rwa [← List.append_assoc] at hall

/-- Going down from several indices is going down from one after the other. -/
theorem Traverses.flatMap {indices : Nat → List Nat} {tree : Nat → Option Tree} {ids : List Nat}
    (h : ∀ id ∈ ids, d.Traverses [id] (indices id) (tree id).toList) :
    d.Traverses ids (ids.flatMap indices) (ids.filterMap tree) := by
  rw [List.filterMap_eq_flatMap_toList]
  induction ids with
  | nil => exact .nil
  | cons id ids ih =>
      obtain ⟨hid, hids⟩ := List.forall_mem_cons.1 h
      exact hid.append (ih hids)

/-- There is one way to go through a document. -/
theorem Traverses.unique {ids met met' : List Nat} {ts ts' : List Tree}
    (h : d.Traverses ids met ts) (h' : d.Traverses ids met' ts') : met = met' ∧ ts = ts' := by
  induction h generalizing met' ts' with
  | nil =>
      cases h'
      exact ⟨rfl, rfl⟩
  | cons hget _ _ ihBelow ihRest =>
      cases h' with
      | cons hget' hbelow' hrest' =>
          obtain rfl := Option.some.inj (hget.symm.trans hget')
          obtain ⟨rfl, rfl⟩ := ihBelow hbelow'
          obtain ⟨rfl, rfl⟩ := ihRest hrest'
          exact ⟨rfl, rfl⟩

/-- What is met are the indices one starts from, and what is below what is met. -/
theorem Traverses.perm {ids met : List Nat} {ts : List Tree} (h : d.Traverses ids met ts) :
    met.Perm (ids ++ met.flatMap fun id => d.childrenOf (some id)) := by
  induction h with
  | nil => exact .refl []
  | @cons id e ids below behind children rest hget _ _ ihBelow ihRest =>
      have hid : d.childrenOf (some id) = e.children := by rw [childrenOf, hget]; rfl
      rw [List.perm_iff_count] at ihBelow ihRest ⊢
      intro j
      have hbelow := ihBelow j
      have hbehind := ihRest j
      simp only [List.flatMap_cons, List.flatMap_append, hid, List.cons_append, List.count_cons,
        List.count_append] at hbelow hbehind ⊢
      omega

/-- Whatever is read off an element without looking at its children is read off the trees in the
    order in which the elements are met. -/
theorem Traverses.map_subtrees {α : Type} {f : Tree → α} {g : Element → α}
    (hfg : ∀ e children, f (.node e.tag e.operator e.text children) = g e)
    {ids met : List Nat} {ts : List Tree} (h : d.Traverses ids met ts) :
    (Tree.subtreesOfForest ts).map f = (met.filterMap d.get?).map g := by
  induction h with
  | nil => rfl
  | cons hget _ _ ihBelow ihRest =>
      rw [Tree.subtreesOfForest_cons, List.map_cons, List.map_append, ihBelow, ihRest, hfg,
        List.filterMap_cons_some hget, List.filterMap_append, List.map_cons, List.map_append]

/-- In a forest the bounded recursion is as good as the unbounded one: below an element there are
    larger indices only, so that no more levels are needed than there are larger indices. -/
theorem IsForest.traverses_within (h : d.IsForest) {bound : Nat} :
    ∀ {id : Nat}, id < d.size → d.size ≤ id + bound + 1 →
      d.Traverses [id] (d.indicesWithin bound id) (d.treeWithin bound id).toList := by
  induction bound with
  | zero =>
      intro id hlt hlast
      obtain ⟨e, hget⟩ : ∃ e, d.get? id = some e := ⟨_, Array.getElem?_eq_getElem hlt⟩
      -- the element with the last index has no children
      have hnone : e.children = [] := by
        refine List.eq_nil_iff_forall_not_mem.2 fun child hchild => ?_
        have hmem : child ∈ d.childrenOf (some id) := by rwa [childrenOf, hget]
        have hafter := h.lt_child id child hmem
        have hbefore := h.lt_size hmem
        omega
      have hbelow : d.Traverses e.children [] [] := by
        rw [hnone]
        exact .nil
      rw [indicesWithin, treeWithin, hget]
      exact .single hget hbelow
  | succ bound ih =>
      intro id hlt hlast
      obtain ⟨e, hget⟩ : ∃ e, d.get? id = some e := ⟨_, Array.getElem?_eq_getElem hlt⟩
      have hchildren : d.childrenOf (some id) = e.children := by rw [childrenOf, hget]; rfl
      have hbelow : d.Traverses e.children (e.children.flatMap (d.indicesWithin bound))
          (e.children.filterMap (d.treeWithin bound)) := by
        refine .flatMap fun child hchild => ?_
        rw [← hchildren] at hchild
        have hafter := h.lt_child id child hchild
        exact ih (h.lt_size hchild) (by omega)
      rw [indicesWithin, treeWithin, hchildren, hget]
      exact .single hget hbelow

theorem IsForest.traverses (h : d.IsForest) : d.Traverses d.roots d.preorder d.forest := by
  refine .flatMap fun id hid => ?_
  have hlt : id < d.size := h.lt_size (show id ∈ d.childrenOf none from hid)
  exact h.traverses_within hlt (by omega)

/-- In a forest there is one run from the roots. -/
theorem IsForest.traverses_iff (h : d.IsForest) {met : List Nat} {ts : List Tree} :
    d.Traverses d.roots met ts ↔ met = d.preorder ∧ ts = d.forest := by
  constructor
  · intro htraverses
    exact htraverses.unique h.traverses
  · rintro ⟨rfl, rfl⟩
    exact h.traverses

/-- In a forest each element is met once. -/
theorem IsForest.preorder_perm (h : d.IsForest) : d.preorder.Perm (List.range d.size) := by
  refine perm_of_perm_append_flatMap h.lt_child h.traverses.perm ?_
  have honce := h.once.symm
  unfold places at honce
  rwa [List.flatMap_cons, List.flatMap_map] at honce

/-- In a forest every element has a place, so if there are no roots there is nothing at all. -/
theorem IsForest.isEmpty_iff (h : d.IsForest) : d.isEmpty = true ↔ d.size = 0 := by
  rw [isEmpty, List.isEmpty_iff]
  constructor
  · intro hroots
    by_contra hsize
    -- the first element can be below no other, so it is a root
    have hfirst : 0 ∈ d.places.flatMap d.childrenOf :=
      h.once.symm.subset (List.mem_range.2 (Nat.pos_of_ne_zero hsize))
    obtain ⟨place, -, hmem⟩ := List.mem_flatMap.1 hfirst
    cases place with
    | none =>
        rw [childrenOf, hroots] at hmem
        cases hmem
    | some id => exact absurd (h.lt_child id 0 hmem) (Nat.not_lt_zero id)
  · intro hsize
    refine List.eq_nil_iff_forall_not_mem.2 fun id hid => ?_
    have hlt : id < d.size := h.lt_size (show id ∈ d.childrenOf none from hid)
    omega

/-! ## What is printed -/

/-- What is printed for a document lists the elements `es`, one after the other. -/
structure Lists (d : Document) (es : List Element) : Prop where
  text : d.text = String.join (es.filterMap Element.text)
  xml : ∀ layout, ∃ marks, Xml.scan (d.toXml layout) = some marks ∧
    Xml.labels marks = es.map fun e => (e.tag.label, e.operator.map Operator.name)
  json : d.toJson.objects.map (fun m => (m.lookup "tag", m.lookup "operator", m.lookup "text")) =
    es.map fun e =>
      (some (.str e.tag.label), e.operator.map fun op => .str op.name, e.text.map .str)

/-- Where there are roots there are trees. -/
theorem Traverses.forest_ne_nil {met : List Nat} {ts : List Tree}
    (h : d.Traverses d.roots met ts) (hroots : d.isEmpty = false) : ts ≠ [] := by
  rintro rfl
  generalize hids : d.roots = ids at h
  cases h
  rw [isEmpty, hids] at hroots
  cases hroots

/-- A recursion that goes through a document lists what it meets. -/
theorem Traverses.lists {met : List Nat} (h : d.Traverses d.roots met d.forest) :
    d.Lists (met.filterMap d.get?) where
  text := by
    have hcontents := h.map_subtrees (f := Tree.content) (g := Element.text) fun _ _ => rfl
    have hjoin := congrArg (fun contents => String.join (contents.filterMap id)) hcontents
    rw [Document.text, Tree.textOfForest_eq_join_contents]
    simpa [List.filterMap_map] using hjoin
  xml := by
    intro layout
    rw [← h.map_subtrees (f := fun t => (t.tag.label, t.operator.map Operator.name))
      fun _ _ => rfl]
    exact exists_scan_toXml h.forest_ne_nil layout
  json := by
    rw [toJson, JsonValue.objects, Tree.objectsOfItems_toJsonItems, List.map_map]
    refine h.map_subtrees fun e children => ?_
    rw [Function.comp_apply, Tree.lookup_tag_members, Tree.lookup_operator_members,
      Tree.lookup_text_members]
    rfl

/-! ## Appending -/

/-- Adding an element without children below another one extends the document by a leaf. -/
theorem extendedBy_push {parent : Option Nat} (hparent : ∀ id ∈ parent, id < d.size)
    {e : Element} (he : e.children = []) :
    d.ExtendedBy parent [.node e.tag e.operator e.text []] (d.push parent e) where
  size := size_push d parent e
  earlier := by
    intro id hid
    cases parent with
    | none => simp [get?_push_none, Nat.ne_of_lt hid]
    | some parent =>
        rw [get?_push_some, get?_push_none, if_neg (Nat.ne_of_lt hid)]
        by_cases hsame : parent = id
        · simp [hsame, Tree.rootsFrom]
        · simp [hsame]
  roots := by
    cases parent <;> rfl
  added := by
    have hnew := get?_push_size (e := e) hparent
    have hlength : (d.push parent e).elements.toList.length = d.size + 1 := size_push d parent e
    have hleaf : Tree.elementsOfForest d.size [.node e.tag e.operator e.text []] = [e] := by
      obtain ⟨tag, operator, text, children⟩ := e
      rw [show children = [] from he]
      rfl
    rw [get?, ← Array.getElem?_toList] at hnew
    obtain ⟨hlt, hlast⟩ := List.getElem?_eq_some_iff.1 hnew
    rw [hleaf, List.drop_eq_getElem_cons hlt, hlast, List.drop_of_length_le (by omega)]
  unfolds := by
    have hnew := get?_push_size (e := e) hparent
    have hnone : (d.push parent e).childrenOf (some d.size) = [] := by
      rw [childrenOf, hnew]
      exact he
    have htree (bound : Nat) : (d.push parent e).treeWithin bound d.size =
        some (.node e.tag e.operator e.text []) := by
      rw [treeWithin_eq_leaf hnone, hnew]
      rfl
    rw [Tree.rootsFrom, Tree.rootsFrom, List.filterMap_cons_some (htree _)]
    rfl

/-- Below an element, an append answers the index that comes next. -/
theorem append_answer {parent : Option Nat} (hparent : ∀ id ∈ parent, id < d.size) (e : Element) :
    (d.append parent e).1 = .ok d.size := by
  cases parent with
  | none => rfl
  | some id => exact if_pos (Nat.le_of_lt (hparent id rfl))

/-- **A document that is built up is a forest, and is printed as one.** There is one way to go
    through it from its roots. This meets each element once, and is what is printed. The document is
    empty only if it has no elements. An append below an element is answered with the next index and
    changes nothing but the end of one list. -/
theorem BuiltUp.printed_once (h : d.BuiltUp) :
    d.IsForest ∧
      (∀ met ts, d.Traverses d.roots met ts ↔ met = d.preorder ∧ ts = d.forest) ∧
      d.preorder.Perm (List.range d.size) ∧
      d.Lists (d.preorder.filterMap d.get?) ∧
      (d.isEmpty = true ↔ d.size = 0) ∧
      ∀ parent, (∀ id ∈ parent, id < d.size) → ∀ e : Element, e.children = [] →
        (d.append parent e).1 = .ok d.size ∧
          d.ExtendedBy parent [.node e.tag e.operator e.text []] (d.append parent e).2 := by
  have hforest := h.isForest
  refine ⟨hforest, fun met ts => hforest.traverses_iff, hforest.preorder_perm,
    hforest.traverses.lists, hforest.isEmpty_iff, fun parent hparent e he => ?_⟩
  rw [append_snd]
  exact ⟨append_answer hparent e, extendedBy_push hparent he⟩

/-- Two roots, of which the first gets children when the second is there. -/
def interleaved : Document :=
  (((Document.empty.changed (.element none .selector none)).changed (.text none ",")).changed
    (.element (some 0) .attr (some .startsWith))).changed (.text (some 2) "[")

/-- The elements of `interleaved` are met out of order, and each of them once. -/
theorem BuiltUp.printed_once_interleaved :
    interleaved.BuiltUp ∧ interleaved.preorder = [0, 2, 3, 1] ∧
      interleaved.preorder.Perm (List.range 4) ∧ interleaved.text = "[," ∧
      (interleaved.append (some 1) { tag := .type }).1 = .ok 4 := by
  have h : interleaved.BuiltUp := by
    refine .changed (.changed (.changed (.changed .empty _ ?_) _ ?_) _ ?_) _ ?_ <;> decide
  obtain ⟨-, -, hperm, hlists, -, happend⟩ := BuiltUp.printed_once h
  exact ⟨h, by decide, hperm, hlists.text, (happend (some 1) (by decide) _ rfl).1⟩

end Document

end SelectorExplain
