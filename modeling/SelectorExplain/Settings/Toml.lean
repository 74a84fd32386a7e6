import SelectorExplain.Settings.Basic
import SelectorExplain.Shape
import SelectorExplain.Toml.Document

set_option autoImplicit false

/-! # Settings in TOML

A configuration file has its settings in the table `explain`. Keys that mean nothing are ignored,
and settings that are left out have their defaults. Values are looked at in the order in which the
file gives them, and the first one that does not fit is reported. -/

namespace SelectorExplain

open Toml (Value Entries)

/-! ## Values that do not fit -/

/-- How a value is described when another is expected. A date counts as a table with a hidden
    key. -/
def Toml.Value.found : Value → Found
  | .string s => .string s
  | .integer n => .integer n
  | .float x => .float x
  | .boolean b => .bool b
  | .datetime => .map
  | .array _ => .sequence
  | .table _ _ _ => .map
  | .tables _ => .sequence

/-- Why a value is no setting. -/
inductive Misfit where
  | shape (m : Mismatch)
  /-- A choice by neither a word nor a table. -/
  | noChoice
  | emptyChoice
  | severalChoices
  /-- A word that is to come with an empty table or array and does not. -/
  | chosenWith (expected : String)
  deriving DecidableEq, Repr

/-- The wording of a misfit. -/
def Misfit.message : Misfit → String
  | shape m => m.message Real64.plainText
  | noChoice => "wanted string or table"
  | emptyChoice => "wanted exactly 1 element, found 0 elements"
  | severalChoices => "wanted exactly 1 element, more than 1 element"
  | chosenWith expected => "expected " ++ expected

/-- The misfit of a value of another type. -/
def Toml.Value.misfit {α : Type} (v : Value) (expected : String) : Except Misfit α :=
  .error (.shape (.wrongType v.found expected))

/-! ## Readings of a value -/

def Toml.Value.toText : Value → Except Misfit String
  | .string s => .ok s
  | v => v.misfit "a string"

def Toml.Value.toFlag : Value → Except Misfit Bool
  | .boolean b => .ok b
  | v => v.misfit "a boolean"

def Toml.Value.toWidth : Value → Except Misfit Nat
  | .integer n =>
    if 0 ≤ n then .ok n.toNat else .error (.shape (.wrongValue (.integer n) "usize"))
  | v => v.misfit "usize"

/-- Checks what comes with a word that carries nothing. It may be an empty table, or a list without
    items. -/
def Toml.Value.nothing : Value → Except Misfit Unit
  | .table _ _ [] => .ok ()
  | .array [] => .ok ()
  | .table _ _ _ => .error (.chosenWith "empty table")
  | .array _ => .error (.chosenWith "empty table")
  | .tables _ => .error (.chosenWith "empty array")
  | v => .error (.chosenWith ("table, found " ++ v.typeName))

/-- The format of a given name. -/
def OutputFormat.named (name : String) : Except Misfit OutputFormat :=
  match OutputFormat.ofName? name with
  | some f => .ok f
  | none => .error (.shape (.unknownVariant name (OutputFormat.all.map OutputFormat.name)))

/-- A format, by its name or as a table with its name as the only key. -/
def Toml.Value.toFormat : Value → Except Misfit OutputFormat
  | .string s => OutputFormat.named s
  | .table _ _ [] => .error .emptyChoice
  | .table _ _ [(name, v)] => do
    let f ← OutputFormat.named name
    v.nothing
    return f
  | .table _ _ _ => .error .severalChoices
  | _ => .error .noChoice

/-! ## Settings -/

/-- The settings with one of them changed by a key, if the key means something. -/
def Settings.put (s : Settings) (key : String) (v : Value) : Except Misfit Settings :=
  match key with
  | "namespace" => do return { s with space := ← v.toText }
  | "indent" => do return { s with indent := some (← v.toWidth) }
  | "xml_declaration" => do return { s with declaration := ← v.toFlag }
  | "format" => do return { s with format := ← v.toFormat }
  | _ => .ok s

/-- The keys of settings in the order in which a list gives their values. -/
def Settings.keys : List String := ["namespace", "indent", "xml_declaration", "format"]

/-- Settings from a table, or from the list of their values. A date has no key that means
    anything. -/
def Settings.ofToml : Value → Except Misfit Settings
  | .table _ _ entries => entries.foldlM (fun s e => s.put e.1 e.2) {}
  | .array items => (Settings.keys.zip items).foldlM (fun s e => s.put e.1 e.2) {}
  | .tables items =>
    (Settings.keys.zip items).foldlM (fun s e => s.put e.1 (.table false .stated e.2)) {}
  | .datetime => .ok {}
  | v => v.misfit "struct ExplainConfig"

/-! ## Configuration files -/

/-- Why a text is no configuration. -/
inductive ConfigError where
  /-- The text is no TOML. -/
  | flawed (f : Toml.Flaw)
  /-- A value is no setting. -/
  | misfit (m : Misfit)
  | emptyNamespace
  deriving DecidableEq, Repr

/-- The wording of the error. -/
def ConfigError.message : ConfigError → String
  | flawed f => "failed to parse config file: " ++ f.message
  | misfit m => "failed to parse config file: " ++ m.message
  | emptyNamespace => "explain.namespace must not be empty"

/-- The configuration of a document. -/
def Config.ofEntries (t : Entries) : Except Misfit Config :=
  match t.get? "explain" with
  | none => .ok {}
  | some v => do return { explain := ← Settings.ofToml v }

/-- Reads a configuration file. Its namespace must not be empty. -/
def Config.parse (text : String) : Except ConfigError Config :=
  match Toml.parse text with
  | .error f => .error (.flawed f)
  | .ok t =>
    match Config.ofEntries t with
    | .error m => .error (.misfit m)
    | .ok c => if c.explain.space = "" then .error .emptyNamespace else .ok c

end SelectorExplain
