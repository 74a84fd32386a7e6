import SelectorExplain.Command.Basic

set_option autoImplicit false

/-! # Arguments of the command line

The command line is `cssel [--config F] [--log-level L] explain [options] [tree file]`. The two
options in front may also stand behind the word `explain`, and then count more. An option's value is
the next argument or follows an equals sign; no option is given twice in one place; and two hyphens
end the options. `--version` is answered in front of the command. Help is left out: `--help`, `-h`
and `help` are refused like anything else that is unknown. -/

namespace SelectorExplain

/-- Why arguments are refused. -/
inductive UsageError where
  | noCommand
  | unknownOption (argument : String)
  | unexpectedArgument (argument : String)
  | repeatedOption (name : String)
  | noValue (name : String)
  | badValue (name value : String)
  deriving DecidableEq, Repr

/-- The wording of the error. -/
def UsageError.message : UsageError → String
  | noCommand => "a command is required: explain"
  | unknownOption argument => "unknown option " ++ argument
  | unexpectedArgument argument => "unexpected argument " ++ argument
  | repeatedOption name => "--" ++ name ++ " is given more than once"
  | noValue name => "--" ++ name ++ " needs a value"
  | badValue name value => "invalid value " ++ value ++ " for --" ++ name

/-- How much is logged. -/
inductive LogLevel where
  | trace
  | debug
  | info
  | warn
  | error
  deriving DecidableEq, Repr

namespace LogLevel

def all : List LogLevel := [trace, debug, info, warn, error]

def name : LogLevel → String
  | trace => "trace"
  | debug => "debug"
  | info => "info"
  | warn => "warn"
  | error => "error"

def ofName? (s : String) : Option LogLevel := all.find? (·.name == s)

end LogLevel

/-- What is asked for. -/
inductive Request where
  | version
  | explain (job : Job) (logLevel : LogLevel)
  deriving DecidableEq, Repr

/-! ## Values -/

/-- A width: digits, with a plus sign or without, of a number of 64 bits. -/
def parseWidth? (s : String) : Option Nat :=
  let digits := match s.toList with
    | '+' :: digits => digits
    | digits => digits
  if digits.isEmpty || !digits.all Char.isDigit then none
  else
    let n := digits.foldl (fun n d => n * 10 + (d.toNat - 48)) 0
    if n < Nat.pow 2 64 then some n else none

/-- A path has at least one character. -/
def parsePath? (s : String) : Option String := if s = "" then none else some s

/-! ## Options -/

/-- What has been given in one place. -/
structure Given where
  config : Option String := none
  logLevel : Option LogLevel := none
  overrides : Overrides := {}
  input : Option String := none

/-- What an option makes of what has been given: one without a value at once, another with its value
    if that is valid. -/
inductive Taking where
  | alone (set : Given → Given)
  | valued (set : Given → String → Option Given)

/-- An option of the command line. -/
structure CommandOption where
  name : String
  isGiven : Given → Bool
  taking : Taking

/-- An option with a value, which is kept once it is read. -/
def CommandOption.keeping {α : Type} (name : String) (get : Given → Option α)
    (set : Given → α → Given) (parse? : String → Option α) : CommandOption where
  name
  isGiven := fun g => (get g).isSome
  taking := .valued fun g s => (parse? s).map (set g)

/-- The options that may stand in either place. -/
def globalOptions : List CommandOption :=
  [.keeping "config" (·.config) (fun g v => { g with config := some v }) parsePath?,
    .keeping "log-level" (·.logLevel) (fun g v => { g with logLevel := some v }) LogLevel.ofName?]

/-- The options behind the word `explain`. -/
def explainOptions : List CommandOption := globalOptions ++
  [.keeping "format" (·.overrides.format)
      (fun g v => { g with overrides := { g.overrides with format := some v } })
      OutputFormat.ofName?,
    .keeping "indent" (·.overrides.indent)
      (fun g v => { g with overrides := { g.overrides with indent := some v } }) parseWidth?,
    { name := "no-declaration"
      isGiven := (·.overrides.noDeclaration)
      taking := .alone fun g =>
        { g with overrides := { g.overrides with noDeclaration := true } } }]

/-! ## Reading arguments -/

/-- The form of an argument. -/
inductive Argument where
  | plain (text : String)
  | long (name : String) (value : Option String)
  | short (letters : List Char)
  | terminator
  deriving DecidableEq, Repr

/-- The form of an argument: a lone hyphen is a plain one. -/
def Argument.ofString (s : String) : Argument :=
  match s.toList with
  | ['-', '-'] => .terminator
  | '-' :: '-' :: body =>
    let name := String.ofList (body.takeWhile (· != '='))
    match body.dropWhile (· != '=') with
    | [] => .long name none
    | _ :: value => .long name (some (String.ofList value))
  | '-' :: c :: letters => .short (c :: letters)
  | _ => .plain s

/-- Where in the command line an argument stands. -/
inductive Place where
  /-- In front of the command. -/
  | front
  /-- Behind the command. -/
  | behind
  /-- Behind the end of the options. -/
  | ended
  deriving DecidableEq, Repr

/-- What the arguments so far have said. -/
structure Reading where
  place : Place := .front
  front : Given := {}
  behind : Given := {}
  /-- An option that still needs its value. -/
  pending : Option (String × (Given → String → Option Given)) := none

namespace Reading

/-- What has been given in the current place. -/
def here (r : Reading) : Given := if r.place = .front then r.front else r.behind

/-- The reading with something else given in the current place. -/
def withHere (r : Reading) (g : Given) : Reading :=
  if r.place = .front then { r with front := g } else { r with behind := g }

def options (r : Reading) : List CommandOption :=
  if r.place = .front then globalOptions else explainOptions

/-- Gives an option its value. -/
def giveValue (r : Reading) (name : String) (set : Given → String → Option Given)
    (value : String) : Except UsageError Reading :=
  match set r.here value with
  | some g => .ok { r.withHere g with pending := none }
  | none => .error (.badValue name value)

/-- Takes an option, with the value that is attached to it if there is one. -/
def takeOption (r : Reading) (name : String) (value : Option String) : Except UsageError Reading :=
  match r.options.find? (·.name == name) with
  | none => .error (.unknownOption ("--" ++ name))
  | some o =>
    if o.isGiven r.here then .error (.repeatedOption name)
    else match o.taking, value with
      | .alone set, none => .ok (r.withHere (set r.here))
      | .alone _, some v => .error (.badValue name v)
      | .valued set, some v => r.giveValue name set v
      | .valued set, none => .ok { r with pending := some (name, set) }

/-- Takes the path of the tree. -/
def takeInput (r : Reading) (path : String) : Except UsageError Reading :=
  match r.behind.input, parsePath? path with
  | some _, _ => .error (.unexpectedArgument path)
  | none, none => .error (.unexpectedArgument path)
  | none, some path => .ok { r with behind := { r.behind with input := some path } }

/-- What is asked for when there are no more arguments. -/
def finish (r : Reading) : Except UsageError Request :=
  match r.pending, r.place with
  | some (name, _), _ => .error (.noValue name)
  | none, .front => .error .noCommand
  | none, _ =>
    .ok <| .explain
      { config := r.behind.config.or r.front.config
        source := .ofArgument r.behind.input
        overrides := r.behind.overrides }
      ((r.behind.logLevel.or r.front.logLevel).getD .warn)

/-- Reads arguments one by one. The version is asked for as soon as its option is met. -/
def run (r : Reading) : List String → Except UsageError Request
  | [] => r.finish
  | a :: rest =>
    match r.pending, r.place, Argument.ofString a with
    | some (name, set), _, .plain value => do (← r.giveValue name set value).run rest
    | some (name, _), _, _ => .error (.noValue name)
    | none, .ended, _ => do (← r.takeInput a).run rest
    | none, .front, .long "version" none => .ok .version
    | none, .front, .short ('V' :: _) => .ok .version
    | none, _, .long name value => do (← r.takeOption name value).run rest
    | none, _, .short _ => .error (.unknownOption a)
    | none, .front, .plain "explain" => { r with place := .behind }.run rest
    | none, .front, _ => .error (.unexpectedArgument a)
    | none, .behind, .plain path => do (← r.takeInput path).run rest
    | none, .behind, .terminator => { r with place := .ended }.run rest

end Reading

/-- What a command line asks for. -/
def Request.ofArguments (arguments : List String) : Except UsageError Request :=
  ({} : Reading).run arguments

end SelectorExplain
