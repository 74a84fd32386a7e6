import SelectorExplain.Proofs.Json.Composite

set_option autoImplicit false

/-! # Reading compact texts

The one-line text of a JSON value, spelled out as the readers of lists and records meet it: items
and members one behind the other, each but the first behind a comma, and no blanks.

A reader that may open so many levels of brackets makes something of a value whose text has up to
that many, and finds a deeper one nested too deeply. `Reads` says that of one value. The lemmas put
it together along lists, records and variants, each of which takes one level for itself. -/

namespace SelectorExplain

/-! ## Nesting -/

mutual

/-- The number of brackets that are open at once in the text of a value. -/
def JsonValue.nesting : JsonValue → Nat
  | .arr items => nestingOfItems items + 1
  | .obj members => nestingOfMembers members + 1
  | .null | .bool _ | .nat _ | .str _ => 0

def JsonValue.nestingOfItems : List JsonValue → Nat
  | [] => 0
  | v :: rest => max v.nesting (nestingOfItems rest)

def JsonValue.nestingOfMembers : List (String × JsonValue) → Nat
  | [] => 0
  | (_, v) :: rest => max v.nesting (nestingOfMembers rest)

end

namespace Json

open JsonValue (nestingOfItems nestingOfMembers)

variable {α β σ : Type}

/-! ## Compact texts -/

/-- Items one behind the other. -/
def itemsText : (first : Bool) → List JsonValue → List Char
  | _, [] => []
  | first, v :: rest => lead first [] [] ++ (v.compact.toList ++ itemsText false rest)

/-- Members one behind the other. -/
def membersText : (first : Bool) → List (String × JsonValue) → List Char
  | _, [] => []
  | first, (key, v) :: rest =>
    lead first [] [] ++ (memberText key [] v.compact.toList ++ membersText false rest)

theorem toList_compactItems (items : List JsonValue) :
    (JsonValue.compactItems items).toList = itemsText true items := by
  induction items with
  | nil => rfl
  | cons v rest ih =>
      cases rest with
      | nil => simp [JsonValue.compactItems, itemsText, lead]
      | cons next rest =>
          rw [JsonValue.compactItems, String.toList_append, String.toList_append, ih]
          · simp [itemsText, lead]
          · simp

theorem toList_compactMembers (members : List (String × JsonValue)) :
    (JsonValue.compactMembers members).toList = membersText true members := by
  induction members with
  | nil => rfl
  | cons m rest ih =>
      obtain ⟨key, v⟩ := m
      cases rest with
      | nil => simp [JsonValue.compactMembers, membersText, memberText, lead, toList_quote]
      | cons next rest =>
          rw [JsonValue.compactMembers, String.toList_append, String.toList_append,
            String.toList_append, String.toList_append, ih]
          · simp [membersText, memberText, lead, toList_quote]
          · simp

theorem toList_compact_arr (items : List JsonValue) :
    (JsonValue.arr items).compact.toList = '[' :: (itemsText true items ++ [']']) := by
  simp [JsonValue.compact, toList_compactItems]

theorem toList_compact_obj (members : List (String × JsonValue)) :
    (JsonValue.obj members).compact.toList = '\x7b' :: (membersText true members ++ ['\x7d']) := by
  simp [JsonValue.compact, toList_compactMembers]

theorem toList_compact_str (s : String) : (JsonValue.str s).compact.toList = quoted s :=
  toList_quote s

theorem startsItem_obj (members : List (String × JsonValue)) :
    StartsItem (JsonValue.obj members).compact.toList := by
  rw [toList_compact_obj]
  exact ⟨'\x7b', _, rfl, by decide, by decide⟩

/-! ## Levels -/

theorem nestingOfItems_le {items : List JsonValue} {n : Nat} :
    nestingOfItems items ≤ n ↔ ∀ v ∈ items, v.nesting ≤ n := by
  induction items with
  | nil => simp [nestingOfItems]
  | cons v rest ih => rw [nestingOfItems, Nat.max_le, ih, List.forall_mem_cons]

theorem nestingOfMembers_le {members : List (String × JsonValue)} {n : Nat} :
    nestingOfMembers members ≤ n ↔ ∀ m ∈ members, m.2.nesting ≤ n := by
  induction members with
  | nil => simp [nestingOfMembers]
  | cons m rest ih => rw [nestingOfMembers, Nat.max_le, ih, List.forall_mem_cons]

/-- What a reader that may open `depth` levels makes of a value with `levels` of them. -/
def limited (depth levels : Nat) (a : α) : Except Problem α :=
  if levels ≤ depth then .ok a else .error .nestedTooDeeply

theorem limited_of_le {depth levels : Nat} (h : levels ≤ depth) (a : α) :
    limited depth levels a = .ok a :=
  if_pos h

theorem limited_of_lt {depth levels : Nat} (h : depth < levels) (a : α) :
    limited depth levels a = .error .nestedTooDeeply :=
  if_neg (Nat.not_le.2 h)

/-- A bracket takes a level. -/
theorem limited_succ {depth : Nat} (h : 0 < depth) (levels : Nat) (a : α) :
    limited depth (levels + 1) a = limited (depth - 1) levels a := by
  have hiff : levels + 1 ≤ depth ↔ levels ≤ depth - 1 := by omega
  simp only [limited, hiff]

theorem limited_max_of_le {depth levels : Nat} (h : levels ≤ depth) (more : Nat) (a : α) :
    limited depth (max levels more) a = limited depth more a := by
  simp only [limited, Nat.max_le, h, true_and]

theorem limited_max_of_lt {depth levels : Nat} (h : depth < levels) (more : Nat) (a : α) :
    limited depth (max levels more) a = .error .nestedTooDeeply :=
  limited_of_lt (by omega) a

theorem eq_of_limited {depth levels : Nat} {a b : α} (h : limited depth levels a = .ok b) :
    a = b := by
  unfold limited at h
  split at h
  · exact Except.ok.inj h
  · cases h

@[simp] theorem map_limited (depth levels : Nat) (a : α) (g : α → β) :
    (limited depth levels a).map g = limited depth levels (g a) := by
  unfold limited
  split <;> rfl

/-- Values one behind the other can be read if each of them can. -/
theorem mapM_limited (depth : Nat) (toJson : α → JsonValue) (items : List α) :
    items.mapM (fun a => limited depth (toJson a).nesting a) =
      limited depth (nestingOfItems (items.map toJson)) items := by
  induction items with
  | nil => exact (limited_of_le (Nat.zero_le _) []).symm
  | cons a items ih =>
      rw [List.mapM_cons, ih, List.map_cons, nestingOfItems]
      by_cases ha : (toJson a).nesting ≤ depth
      · rw [limited_of_le ha, limited_max_of_le ha]
        unfold limited
        split <;> rfl
      · rw [limited_of_lt (Nat.not_le.1 ha), limited_max_of_lt (Nat.not_le.1 ha)]
        rfl

/-- A reader that may open `depth` levels reads the text of a JSON value as `a`, unless it has more
    levels. -/
def Reads (d : Decoder α) (depth : Nat) (v : JsonValue) (a : α) : Prop :=
  Gives d v.compact.toList (limited depth v.nesting a) Anything

theorem Reads.map {d : Decoder α} {depth : Nat} {v : JsonValue} {a : α} (h : Reads d depth v a)
    (g : α → β) : Reads (g <$> d) depth v (g a) := by
  have hmap := Gives.map h g
  rw [map_limited] at hmap
  exact hmap

theorem Reads.checked {d : Decoder α} {depth : Nat} {v : JsonValue} {a : α} {b : β}
    (h : Reads d depth v a) {check : α → Except TreeError β} (hcheck : check a = .ok b) :
    Reads (checked check d) depth v b := by
  have hpasses : ∀ x, limited depth v.nesting a = .ok x → check x = .ok b := by
    intro x hx
    rw [← eq_of_limited hx, hcheck]
  have hchecked := Gives.checked (g := fun _ => b) h hpasses
  rw [map_limited] at hchecked
  exact hchecked

/-! ## Strings and words -/

/-- A string has no brackets. -/
theorem limited_str (depth : Nat) (s : String) (a : α) :
    limited depth (JsonValue.str s).nesting a = .ok a := by
  rw [JsonValue.nesting]
  exact limited_of_le (Nat.zero_le _) a

theorem reads_string (s : String) (depth : Nat) : Reads string depth (.str s) s := by
  rw [Reads, toList_compact_str, limited_str]
  exact gives_string s

/-- A value in place of an optional one is read as such, if it is no number or word. -/
theorem Reads.option {value : Decoder α} {depth : Nat} {v : JsonValue} {a : α}
    (h : Reads value depth v a) {c : Char} {t : List Char} (htext : v.compact.toList = c :: t)
    (hc : isBlank c = false ∧ c ≠ 'n') : Reads (option value) depth v (some a) := by
  rw [Reads, htext] at h ⊢
  rw [← map_limited _ _ a some]
  exact Gives.option (w := []) blanks_nil hc.1 hc.2 h

theorem reads_option_string (s : String) (depth : Nat) :
    Reads (option string) depth (.str s) (some s) :=
  (reads_string s depth).option (toList_compact_str s) (by decide)

theorem reads_oneOf {words : List (String × α)} {word : String} {a : α}
    (hfind : words.find? (·.1 == word) = some (word, a)) (room : Bool) (depth : Nat) :
    Reads (oneOf room words) depth (.str word) a := by
  rw [Reads, toList_compact_str, limited_str]
  refine gives_variant_word (w := []) room (d := do unit; return a) ?_ blanks_nil
    (stringText_quoted word)
  rw [List.find?_map]
  exact congrArg (Option.map _) hfind

/-! ## Lists -/

theorem listed_map {item : Decoder α} {toJson : α → JsonValue} {outcome : α → Except Problem α}
    {items : List α}
    (h : ∀ a ∈ items, StartsItem (toJson a).compact.toList ∧
      Gives item (toJson a).compact.toList (outcome a) Anything) (first : Bool) :
    Listed item first (itemsText first (items.map toJson)) (items.mapM outcome) := by
  induction items generalizing first with
  | nil => exact .close blanks_nil
  | cons a items ih =>
      obtain ⟨hstart, hitem⟩ := h a (by simp)
      have hmore := ih (fun x hx => h x (by simp [hx])) false
      rw [List.mapM_cons]
      cases houtcome : outcome a with
      | ok b =>
          rw [houtcome] at hitem
          have hcons : Listed item first _ _ :=
            .item blanks_nil blanks_nil hstart hitem.delimited hmore
          cases hrest : items.mapM outcome <;> rw [hrest] at hcons <;> exact hcons
      | error problem =>
          rw [houtcome] at hitem
          exact .stop _ blanks_nil blanks_nil hstart hitem

theorem reads_list {item : Decoder α} {toJson : α → JsonValue} {items : List α} {depth : Nat}
    (h : ∀ a ∈ items, StartsItem (toJson a).compact.toList ∧ Reads item (depth - 1) (toJson a) a) :
    Reads (list (0 < depth) item) depth (.arr (items.map toJson)) items := by
  rw [Reads, toList_compact_arr, JsonValue.nesting]
  -- without room for the list itself nothing is read, else its items stand one level further in
  by_cases hroom : 0 < depth
  · rw [decide_eq_true hroom, limited_succ hroom, ← mapM_limited]
    exact (listed_map h true).gives_list blanks_nil
  · rw [decide_eq_false hroom, limited_of_lt (by omega)]
    exact gives_list_full blanks_nil _

/-! ## Records -/

section

variable {r : Record σ α} {depth : Nat} {members : List (String × JsonValue)}

theorem Reads.field {value : Decoder β} {v : JsonValue} {b : β} (h : Reads value depth v b)
    (name : String) (required : Bool) (get : σ → Option β) (set : σ → β → σ) (s : σ) :
    Reads ((FieldReader.of name required get set value).read s) depth v (set s b) := by
  have hset := h.andReturn (set s)
  rw [map_limited] at hset
  exact hset

theorem gathers_nil {first : Bool} {s : σ} :
    Gathers r first s (membersText first []) (limited depth (nestingOfMembers []) s) := by
  rw [nestingOfMembers, limited_of_le (Nat.zero_le _)]
  exact .close blanks_nil

/-- Members come to something as far as none of them is nested too deeply. -/
theorem gathers_cons {first : Bool} {s s' t : σ} {key : String} {v : JsonValue}
    {f : FieldReader σ} (hfind : r.fields.find? (·.name == key) = some f) (hseen : f.seen s = false)
    (hread : Reads (f.read s) depth v s')
    (hmore : Gathers r false s' (membersText false members)
      (limited depth (nestingOfMembers members) t)) :
    Gathers r first s (membersText first ((key, v) :: members))
      (limited depth (nestingOfMembers ((key, v) :: members)) t) := by
  rw [nestingOfMembers, membersText, memberText_eq]
  by_cases hv : v.nesting ≤ depth
  · rw [limited_max_of_le hv]
    rw [Reads, limited_of_le hv] at hread
    exact .member blanks_nil blanks_nil blanks_nil (denotes_escaped _) hfind hseen hread.delimited
      hmore
  · rw [limited_max_of_lt (Nat.not_le.1 hv)]
    rw [Reads, limited_of_lt (Nat.not_le.1 hv)] at hread
    exact .stop _ blanks_nil blanks_nil blanks_nil (denotes_escaped _) hfind hseen hread

theorem reads_record {s : σ} {a : α}
    (h : 0 < depth → Gathers r true r.start (membersText true members)
      (limited (depth - 1) (nestingOfMembers members) s))
    (hfinish : r.finish s = .ok a) : Reads (r.read (0 < depth)) depth (.obj members) a := by
  rw [Reads, toList_compact_obj, JsonValue.nesting]
  by_cases hroom : 0 < depth
  · rw [decide_eq_true hroom, limited_succ hroom,
      ← map_limited _ _ s fun _ => a]
    refine (h hroom).gives_read (fun x hx => ?_) blanks_nil
    rw [← eq_of_limited hx, hfinish]
  · rw [decide_eq_false hroom, limited_of_lt (by omega)]
    exact gives_read_full blanks_nil _

end

/-! ## Variants -/

theorem reads_variant {known : List (String × Option α × Decoder α)}
    {entry : String × Option α × Decoder α} {key : String}
    (hfind : known.find? (·.1 == key) = some entry) {v : JsonValue} {a : α} {depth : Nat}
    (h : Reads entry.2.2 (depth - 1) v a) :
    Reads (variant (0 < depth) known) depth (.obj [(key, v)]) a := by
  have htext : (JsonValue.obj [(key, v)]).compact.toList =
      [] ++ '\x7b' :: ([] ++ (memberOf (key.toList.flatMap JsonValue.escapeChar) []
        v.compact.toList ++ ([] ++ ['\x7d']))) := by
    simp [toList_compact_obj, membersText, memberText_eq, lead]
  rw [Reads, htext, JsonValue.nesting, nestingOfMembers, nestingOfMembers, Nat.max_zero]
  by_cases hroom : 0 < depth
  · rw [decide_eq_true hroom, limited_succ hroom]
    exact Gives.variant (denotes_escaped _) hfind blanks_nil blanks_nil blanks_nil blanks_nil
      h.delimited
  · rw [decide_eq_false hroom, limited_of_lt (by omega)]
    exact gives_variant_full blanks_nil _

end Json

end SelectorExplain
