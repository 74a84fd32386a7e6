import SelectorExplain.Response
import SelectorExplain.Selector.Decode
import SelectorExplain.Settings.Toml

set_option autoImplicit false

/-! # The explain command

A tree is read from a file or from standard input, explained, and printed as the settings say. The
command does not touch files itself: it is given a function that reads a source, so what it answers
depends on nothing but the contents of the sources it asks for. -/

namespace SelectorExplain

/-! ## Sources -/

/-- Where a text comes from. -/
inductive Source where
  | standardInput
  | file (path : String)
  deriving DecidableEq, Repr

/-- Whether a path is a lone hyphen, up to slashes and dots at its end that lead nowhere. -/
def isHyphen (path : String) : Bool :=
  match path.toList.splitOn '/' with
  | [] => false
  | first :: more => first == ['-'] && more.all fun part => part == [] || part == ['.']

/-- The source that an argument names; a lone hyphen, or no argument, names standard input. -/
def Source.ofArgument : Option String → Source
  | none => standardInput
  | some path => if isHyphen path then standardInput else file path

/-- Why a source gives no text. -/
inductive ReadError where
  /-- The system refuses, with its reason and the number of the reason. -/
  | system (reason : String) (number : Nat)
  /-- The name is refused before the system is asked. -/
  | badName (reason : String)
  | notUtf8
  deriving DecidableEq, Repr

/-- The wording of the error. -/
def ReadError.message : ReadError → String
  | system reason number => reason ++ " (os error " ++ toString number ++ ")"
  | badName reason => reason
  | notUtf8 => "stream did not contain valid UTF-8"

/-- The contents of a source. -/
abbrev Contents := Except ReadError ByteArray

/-- The text of a source. -/
def Contents.text : Contents → Except ReadError String
  | .error e => .error e
  | .ok bytes =>
    match String.fromUTF8? bytes with
    | some s => .ok s
    | none => .error .notUtf8

/-! ## Reading -/

/-- The failure of a source that should give a tree. -/
def Source.failure (s : Source) (e : ReadError) : Failure :=
  match s with
  | standardInput => .io e.message
  | file path => .invalidArguments ("cannot read " ++ path ++ ": " ++ e.message)

/-- Reads a tree from a text. -/
def Group.parse (text : String) : Except Failure Group :=
  (Group.ofJson text).mapError fun f => .invalidInput f.message

/-- The tree that a source gives. -/
def Source.group (s : Source) (contents : Contents) : Except Failure Group :=
  match contents.text with
  | .error e => .error (s.failure e)
  | .ok text => Group.parse text

/-- The configuration that the file at `path` gives. -/
def Config.ofContents (path : String) (contents : Contents) : Except Failure Config :=
  match contents.text with
  | .error e => .error (.config ("failed to read config file " ++ path ++ ": " ++ e.message))
  | .ok text => (Config.parse text).mapError fun e => .config e.message

/-! ## Explaining -/

/-- Explains a group and prints the explanation. JSON is written as bytes, which have to be text in
    the end, as those of XML have. -/
def Group.render (g : Group) (s : Settings) : Except Failure String :=
  match g.explainWith s.toLayout with
  | .error e => .error (.explain e)
  | .ok x =>
    match s.format with
    | .xml => x.writeXml.mapError .explain
    | .text => .ok (x.text ++ "\n")
    | .json =>
      match String.fromUTF8? x.response.toJson.emit.toByteArray with
      | some text => .ok text
      | none => .error (.internal "JSON output is not UTF-8")

/-- One run of the command. -/
structure Job where
  /-- The path of the configuration file, if there is one. -/
  config : Option String := none
  source : Source := .standardInput
  overrides : Overrides := {}
  deriving DecidableEq, Repr

variable {m : Type → Type} [Monad m]

/-- The configuration of a job: that of its file, or the default. -/
def Job.loadConfig (j : Job) (read : Source → m Contents) : m (Except Failure Config) :=
  match j.config with
  | none => return .ok {}
  | some path => return Config.ofContents path (← read (.file path))

/-- Runs a job. The configuration is read first; if it is wrong, the tree is not looked at. -/
def Job.run (j : Job) (read : Source → m Contents) : m (Except Failure String) := do
  match ← j.loadConfig read with
  | .error e => return .error e
  | .ok config =>
    match j.source.group (← read j.source) with
    | .error e => return .error e
    | .ok g => return g.render (config.explain.override j.overrides)

end SelectorExplain
