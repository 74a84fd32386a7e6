import SelectorExplain.Document.Json
import SelectorExplain.Json.Decoder
import SelectorExplain.Settings.Basic

set_option autoImplicit false

/-! # Settings in JSON

Every field of the settings may be left out and then has its default. -/

namespace SelectorExplain

open Json (Decoder FieldReader Record)

/-! ## Writing -/

def OutputFormat.toJson (f : OutputFormat) : JsonValue := .str f.name

def Settings.toJson (s : Settings) : JsonValue :=
  .obj [("namespace", .str s.space), ("indent", Layout.indentJson s.indent),
    ("xml_declaration", .bool s.declaration), ("format", s.format.toJson)]

def Config.toJson (c : Config) : JsonValue := .obj [("explain", c.explain.toJson)]

/-! ## Reading -/

/-- The number of values of a width. -/
def widthBound : Nat := Nat.pow 2 64

def OutputFormat.decoder (depth : Nat) : Decoder OutputFormat :=
  Json.oneOf (0 < depth) (all.map fun f => (f.name, f))

/-- What has been read of settings. -/
structure SettingsFields where
  space : Option String := none
  indent : Option (Option Nat) := none
  declaration : Option Bool := none
  format : Option OutputFormat := none

/-- The layout, with defaults for what has not been read. -/
def SettingsFields.layout (s : SettingsFields) : Layout where
  space := s.space.getD ({} : Layout).space
  indent := s.indent.getD ({} : Layout).indent
  declaration := s.declaration.getD ({} : Layout).declaration

/-- The settings, with defaults for what has not been read. -/
def SettingsFields.settings (s : SettingsFields) : Settings :=
  { s.layout with format := s.format.getD ({} : Settings).format }

/-- The fields of a layout. -/
def layoutFields : List (FieldReader SettingsFields) :=
  [.of "namespace" false (·.space) (fun s v => { s with space := some v }) Json.string,
    .of "indent" false (·.indent) (fun s v => { s with indent := some v })
      (Json.option (Json.natural widthBound "usize")),
    .of "xml_declaration" false (·.declaration) (fun s v => { s with declaration := some v })
      Json.boolean]

def layoutRecord : Record SettingsFields Layout where
  name := "ExplainOptions"
  fields := layoutFields
  start := {}
  finish := fun s => .ok s.layout

def settingsRecord (depth : Nat) : Record SettingsFields Settings where
  name := "ExplainConfig"
  fields := layoutFields ++
    [.of "format" false (·.format) (fun s v => { s with format := some v })
      (OutputFormat.decoder depth)]
  start := {}
  finish := fun s => .ok s.settings

def Layout.decoder (depth : Nat) : Decoder Layout := layoutRecord.read (0 < depth)

def Settings.decoder (depth : Nat) : Decoder Settings :=
  (settingsRecord (depth - 1)).read (0 < depth)

def configRecord (depth : Nat) : Record (Option Settings) Config where
  name := "Config"
  fields := [.of "explain" false id (fun _ v => some v) (Settings.decoder depth)]
  start := none
  finish := fun s => .ok { explain := s.getD {} }

def Config.decoder (depth : Nat) : Decoder Config := (configRecord (depth - 1)).read (0 < depth)

end SelectorExplain
