import SelectorExplain.Settings.Toml

set_option autoImplicit false

/-! # Where each setting comes from

A configuration file gives values for settings by their keys, in a table or in a list. Each setting
is what its value is read as, or has its default if there is no value for it
(`Settings.Configured`), and an option of the command line goes before both (`Settings.Merged`).

Every setting is kept by all steps of reading but those for its own key, so all four are instances
of one statement about reading key after key (`settingIs_foldlM`). -/

namespace SelectorExplain

open Toml (Value Entries)

/-! ## Values for settings -/

/-- The values that a configuration gives, with the keys they are for. A list gives them in the
    order of the keys. -/
def Toml.Value.settings : Value → Entries
  | .table _ _ entries => entries
  | .array items => Settings.keys.zip items
  | .tables items => Settings.keys.zip (items.map fun t => .table false .stated t)
  | _ => []

/-- The values that a configuration file gives for settings. -/
def Toml.Entries.settings (t : Entries) : Entries :=
  match t.get? "explain" with
  | none => []
  | some v => v.settings

/-- The value that stands last for a key; in a document it is the only one. -/
def lastValue (values : Entries) (key : String) : Option Value := values.reverse.lookup key

theorem lastValue_cons (key : String) (e : String × Value) (values : Entries) :
    lastValue (e :: values) key =
      (lastValue values key).or (if key = e.1 then some e.2 else none) := by
  obtain ⟨name, v⟩ := e
  rw [lastValue, List.reverse_cons, List.lookup_append, List.lookup_cons]
  by_cases h : key = name
  · simp [lastValue, h]
  · simp [lastValue, h, beq_eq_false_iff_ne.2 h]

section

variable {β : Type}

/-- A setting is what its value is read as, or its default if it has none. -/
def SettingIs (values : Entries) (key : String) (read : Value → Except Misfit β) (default b : β) :
    Prop :=
  match lastValue values key with
  | some v => read v = .ok b
  | none => b = default

theorem SettingIs.unique {values : Entries} {key : String} {read : Value → Except Misfit β}
    {default b b' : β} (h : SettingIs values key read default b)
    (h' : SettingIs values key read default b') : b = b' := by
  unfold SettingIs at h h'
  cases hlast : lastValue values key with
  | none =>
      rw [hlast] at h h'
      exact h.trans h'.symm
  | some v =>
      rw [hlast] at h h'
      exact Except.ok.inj (h.symm.trans h')

end

/-! ## Configured settings -/

/-- Every setting is as configured. -/
structure Settings.Configured (values : Entries) (s : Settings) : Prop where
  space : SettingIs values "namespace" Value.toText defaultNamespace s.space
  indent : SettingIs values "indent" (fun v => some <$> v.toWidth) none s.indent
  declaration : SettingIs values "xml_declaration" Value.toFlag true s.declaration
  format : SettingIs values "format" Value.toFormat .xml s.format

/-- Every setting is as an option says, or else as configured. -/
structure Settings.Merged (o : Overrides) (values : Entries) (s : Settings) : Prop where
  space : SettingIs values "namespace" Value.toText defaultNamespace s.space
  indent : match o.indent with
    | some n => s.indent = some n
    | none => SettingIs values "indent" (fun v => some <$> v.toWidth) none s.indent
  declaration : match o.noDeclaration with
    | true => s.declaration = false
    | false => SettingIs values "xml_declaration" Value.toFlag true s.declaration
  format : match o.format with
    | some f => s.format = f
    | none => SettingIs values "format" Value.toFormat .xml s.format

theorem Settings.Configured.merged {values : Entries} {s : Settings} (h : s.Configured values)
    (o : Overrides) : (s.override o).Merged o values where
  space := h.space
  indent := by
    rw [override]
    cases o.indent with
    | none => exact h.indent
    | some n => rfl
  declaration := by
    rw [override]
    cases o.noDeclaration with
    | false => simpa using h.declaration
    | true => exact Bool.and_false _
  format := by
    rw [override]
    cases o.format with
    | none => exact h.format
    | some f => rfl

/-- Options and values leave no choice. -/
theorem Settings.Merged.unique {o : Overrides} {values : Entries} {s s' : Settings}
    (h : s.Merged o values) (h' : s'.Merged o values) : s = s' := by
  obtain ⟨⟨space, indent, declaration⟩, format⟩ := s
  obtain ⟨⟨space', indent', declaration'⟩, format'⟩ := s'
  obtain ⟨hspace, hindent, hdeclaration, hformat⟩ := h
  obtain ⟨hspace', hindent', hdeclaration', hformat'⟩ := h'
  obtain rfl : space = space' := hspace.unique hspace'
  obtain rfl : indent = indent' := by
    cases hoption : o.indent with
    | none =>
        rw [hoption] at hindent hindent'
        exact hindent.unique hindent'
    | some n =>
        rw [hoption] at hindent hindent'
        exact hindent.trans hindent'.symm
  obtain rfl : declaration = declaration' := by
    cases hoption : o.noDeclaration with
    | false =>
        rw [hoption] at hdeclaration hdeclaration'
        exact hdeclaration.unique hdeclaration'
    | true =>
        rw [hoption] at hdeclaration hdeclaration'
        exact hdeclaration.trans hdeclaration'.symm
  obtain rfl : format = format' := by
    cases hoption : o.format with
    | none =>
        rw [hoption] at hformat hformat'
        exact hformat.unique hformat'
    | some f =>
        rw [hoption] at hformat hformat'
        exact hformat.trans hformat'.symm
  rfl

/-! ## Reading key after key -/

theorem exists_ok_of_bind {ε α β : Type} {x : Except ε α} {f : α → Except ε β} {b : β}
    (h : x >>= f = .ok b) : ∃ a, x = .ok a ∧ f a = .ok b := by
  cases x with
  | error e => cases h
  | ok a => exact ⟨a, rfl, h⟩

/-- What one key does: it sets its own setting, or nothing. -/
theorem Settings.put_cases {s s' : Settings} {key : String} {v : Value}
    (h : s.put key v = .ok s') :
    (key = "namespace" ∧ ∃ x, v.toText = .ok x ∧ s' = { s with space := x }) ∨
      (key = "indent" ∧ ∃ n, v.toWidth = .ok n ∧ s' = { s with indent := some n }) ∨
      (key = "xml_declaration" ∧ ∃ b, v.toFlag = .ok b ∧ s' = { s with declaration := b }) ∨
      (key = "format" ∧ ∃ f, v.toFormat = .ok f ∧ s' = { s with format := f }) ∨
      key ∉ Settings.keys ∧ s' = s := by
  unfold put at h
  split at h
  · obtain ⟨x, hx, h⟩ := exists_ok_of_bind h
    exact .inl ⟨rfl, x, hx, (Except.ok.inj h).symm⟩
  · obtain ⟨n, hn, h⟩ := exists_ok_of_bind h
    exact .inr (.inl ⟨rfl, n, hn, (Except.ok.inj h).symm⟩)
  · obtain ⟨b, hb, h⟩ := exists_ok_of_bind h
    exact .inr (.inr (.inl ⟨rfl, b, hb, (Except.ok.inj h).symm⟩))
  · obtain ⟨f, hf, h⟩ := exists_ok_of_bind h
    exact .inr (.inr (.inr (.inl ⟨rfl, f, hf, (Except.ok.inj h).symm⟩)))
  · next hspace hindent hdeclaration hformat =>
      refine .inr (.inr (.inr (.inr ⟨?_, (Except.ok.inj h).symm⟩)))
      simp only [keys, List.mem_cons, List.not_mem_nil, or_false, not_or]
      exact ⟨hspace, hindent, hdeclaration, hformat⟩

section

variable {β : Type} {key : String} {read : Value → Except Misfit β} {get : Settings → β}

/-- The key sets this setting, and no other key changes it. -/
structure SetsSetting (key : String) (read : Value → Except Misfit β) (get : Settings → β) :
    Prop where
  sets : ∀ {s s' v}, Settings.put s key v = .ok s' → read v = .ok (get s')
  keeps : ∀ {s s' other v}, other ≠ key → Settings.put s other v = .ok s' → get s' = get s

/-- A setting that only its own key changes is what the last value for that key is read as. -/
theorem SetsSetting.settingIs_foldlM (h : SetsSetting key read get) {values : Entries}
    {s s' : Settings} (hfold : values.foldlM (fun s e => s.put e.1 e.2) s = .ok s') :
    SettingIs values key read (get s) (get s') := by
  induction values generalizing s with
  | nil =>
      cases hfold
      rfl
  | cons e values ih =>
      rw [List.foldlM_cons] at hfold
      obtain ⟨between, hput, hrest⟩ := exists_ok_of_bind hfold
      have hsetting := ih hrest
      unfold SettingIs at hsetting ⊢
      rw [lastValue_cons]
      cases hlast : lastValue values key with
      | some v =>
          rw [hlast] at hsetting
          exact hsetting
      | none =>
          rw [hlast] at hsetting
          by_cases hkey : key = e.1
          · rw [← hkey] at hput
            rw [if_pos hkey, hsetting]
            exact h.sets hput
          · rw [if_neg hkey, hsetting]
            exact h.keeps (Ne.symm hkey) hput

end

theorem setsSetting_space : SetsSetting "namespace" Value.toText fun s => s.space where
  sets h := by
    rcases Settings.put_cases h with ⟨-, x, hx, rfl⟩ | h | h | h | h
    · exact hx
    all_goals simp [Settings.keys] at h
  keeps hne h := by
    rcases Settings.put_cases h with ⟨rfl, -⟩ | ⟨-, x, -, rfl⟩ | ⟨-, x, -, rfl⟩ | ⟨-, x, -, rfl⟩ |
      ⟨-, rfl⟩
    · exact absurd rfl hne
    all_goals rfl

theorem setsSetting_indent :
    SetsSetting "indent" (fun v => some <$> v.toWidth) fun s => s.indent where
  sets h := by
    rcases Settings.put_cases h with h | ⟨-, n, hn, rfl⟩ | h | h | h
    · simp at h
    · rw [hn]
      rfl
    all_goals simp [Settings.keys] at h
  keeps hne h := by
    rcases Settings.put_cases h with ⟨-, x, -, rfl⟩ | ⟨rfl, -⟩ | ⟨-, x, -, rfl⟩ | ⟨-, x, -, rfl⟩ |
      ⟨-, rfl⟩
    · rfl
    · exact absurd rfl hne
    all_goals rfl

theorem setsSetting_declaration :
    SetsSetting "xml_declaration" Value.toFlag fun s => s.declaration where
  sets h := by
    rcases Settings.put_cases h with h | h | ⟨-, b, hb, rfl⟩ | h | h
    · simp at h
    · simp at h
    · exact hb
    all_goals simp [Settings.keys] at h
  keeps hne h := by
    rcases Settings.put_cases h with ⟨-, x, -, rfl⟩ | ⟨-, x, -, rfl⟩ | ⟨rfl, -⟩ | ⟨-, x, -, rfl⟩ |
      ⟨-, rfl⟩
    · rfl
    · rfl
    · exact absurd rfl hne
    all_goals rfl

theorem setsSetting_format : SetsSetting "format" Value.toFormat fun s => s.format where
  sets h := by
    rcases Settings.put_cases h with h | h | h | ⟨-, f, hf, rfl⟩ | h
    · simp at h
    · simp at h
    · simp at h
    · exact hf
    · simp [Settings.keys] at h
  keeps hne h := by
    rcases Settings.put_cases h with ⟨-, x, -, rfl⟩ | ⟨-, x, -, rfl⟩ | ⟨-, x, -, rfl⟩ | ⟨rfl, -⟩ |
      ⟨-, rfl⟩
    · rfl
    · rfl
    · rfl
    · exact absurd rfl hne
    · rfl

/-! ## Reading a configuration -/

theorem Settings.configured_foldlM {values : Entries} {s : Settings}
    (h : values.foldlM (fun s e => Settings.put s e.1 e.2) {} = .ok s) : s.Configured values where
  space := setsSetting_space.settingIs_foldlM h
  indent := setsSetting_indent.settingIs_foldlM h
  declaration := setsSetting_declaration.settingIs_foldlM h
  format := setsSetting_format.settingIs_foldlM h

/-- The settings of a value are read from the values that it gives for them. -/
theorem Settings.configured_ofToml {v : Value} {s : Settings} (h : ofToml v = .ok s) :
    s.Configured v.settings := by
  cases v with
  | table braced origin entries => exact configured_foldlM h
  | array items => exact configured_foldlM h
  | tables items =>
      refine configured_foldlM ?_
      rw [Toml.Value.settings, List.zip_map_right, List.foldlM_map]
      exact h
  | datetime =>
      cases h
      exact configured_foldlM rfl
  | string _ | integer _ | float _ | boolean _ => cases h

theorem Config.configured_ofEntries {t : Entries} {c : Config} (h : ofEntries t = .ok c) :
    c.explain.Configured t.settings := by
  unfold ofEntries at h
  unfold Toml.Entries.settings
  cases hexplain : t.get? "explain" with
  | none =>
      rw [hexplain] at h
      cases h
      exact Settings.configured_foldlM rfl
  | some v =>
      rw [hexplain] at h
      obtain ⟨s, hs, h⟩ := exists_ok_of_bind h
      cases h
      exact Settings.configured_ofToml hs

/-! ## Accepted configurations -/

/-- A configuration is accepted, and these are the values that it gives for settings: a file has to
    decode, with a namespace that is not empty, and without a file there are no values. -/
def Config.Accepted : (text : Option String) → Entries → Prop
  | none, values => values = []
  | some text, values =>
    ∃ (t : Entries) (c : Config), Toml.parse text = .ok t ∧ ofEntries t = .ok c ∧
      c.explain.space ≠ "" ∧ values = t.settings

/-- The configuration that a file with this text gives, or the default without a file. -/
def Config.ofText : (text : Option String) → Except ConfigError Config
  | none => .ok {}
  | some text => parse text

/-- What is accepted is read, with the settings that its values say. -/
theorem Config.Accepted.ofText_eq_ok {text : Option String} {values : Entries}
    (h : Accepted text values) :
    ∃ c, ofText text = .ok c ∧ c.explain.Configured values := by
  cases text with
  | none =>
      obtain rfl : values = [] := h
      exact ⟨{}, rfl, Settings.configured_foldlM rfl⟩
  | some text =>
      obtain ⟨t, c, ht, hc, hspace, rfl⟩ := h
      refine ⟨c, ?_, configured_ofEntries hc⟩
      simp only [ofText, parse, ht, hc, if_neg hspace]

/-- Options merge with the values of an accepted configuration. -/
theorem Config.Accepted.merged {text : Option String} {values : Entries} {c : Config}
    (h : Accepted text values) (hc : ofText text = .ok c) (o : Overrides) :
    (c.explain.override o).Merged o values := by
  obtain ⟨c', hc', hconfigured⟩ := h.ofText_eq_ok
  rw [hc] at hc'
  cases hc'
  exact hconfigured.merged o

/-- What cannot be read is not accepted. -/
theorem Config.not_accepted {text : Option String} {e : ConfigError} (h : ofText text = .error e)
    (values : Entries) : ¬Accepted text values := by
  intro haccepted
  obtain ⟨c, hc, -⟩ := haccepted.ofText_eq_ok
  rw [h] at hc
  cases hc

/-- What is read is accepted. -/
theorem Config.accepted_of_ofText {text : Option String} {c : Config} (h : ofText text = .ok c) :
    ∃ values, Accepted text values := by
  cases text with
  | none => exact ⟨[], rfl⟩
  | some text =>
      rw [ofText, parse] at h
      split at h
      · cases h
      · next t ht =>
          split at h
          · cases h
          · next c hc =>
              split at h
              · cases h
              · next hspace => exact ⟨_, t, c, ht, hc, hspace, rfl⟩

end SelectorExplain
