import SelectorExplain.Explainer

set_option autoImplicit false

/-! # Failures

Everything that may go wrong between the command line and the output, with the code that callers
see. -/

namespace SelectorExplain

/-- What a failure means to callers. Its number is the exit code of the program. -/
inductive ErrorCode where
  /-- The arguments or the configuration are wrong. -/
  | invalidArguments
  /-- The selector tree is wrong. -/
  | invalidInput
  /-- The explanation cannot be made or written. -/
  | render
  /-- Anything else. -/
  | internal
  deriving DecidableEq, Repr, Inhabited

namespace ErrorCode

def all : List ErrorCode := [invalidArguments, invalidInput, render, internal]

def number : ErrorCode → UInt8
  | invalidArguments => 2
  | invalidInput => 3
  | render => 4
  | internal => 10

end ErrorCode

/-- Why there is no output. -/
inductive Failure where
  | invalidArguments (reason : String)
  | invalidInput (reason : String)
  | config (reason : String)
  | explain (e : ExplainError)
  | io (reason : String)
  | internal (reason : String)
  deriving DecidableEq, Repr

namespace Failure

def code : Failure → ErrorCode
  | invalidArguments _ => .invalidArguments
  | invalidInput _ => .invalidInput
  | config _ => .invalidArguments
  | explain _ => .render
  | io _ => .internal
  | internal _ => .internal

/-- The wording of a failure. -/
def message : Failure → String
  | invalidArguments reason => "invalid arguments: " ++ reason
  | invalidInput reason => "invalid selector tree: " ++ reason
  | config reason => "config error: " ++ reason
  | explain e => "explain failed: " ++ e.message
  | io reason => "i/o error: " ++ reason
  | internal reason => "internal error: " ++ reason

end Failure

end SelectorExplain
