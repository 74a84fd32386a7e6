import SelectorExplain.Command.Arguments

set_option autoImplicit false

/-! # The program

From arguments to an exit code and what is printed. A failure is printed as a report, so that
callers find either way one kind of text on standard output; only wrong arguments print nothing
there. -/

namespace SelectorExplain

/-- What a run of the program leaves behind. -/
structure Outcome where
  exitCode : UInt8
  output : String
  deriving DecidableEq, Repr, Inhabited

/-- The name and the version of the program. -/
def versionLine : String := "cssel 0.1.0\n"

/-- The exit code of wrong arguments. -/
def usageExitCode : UInt8 := 2

/-- The outcome of a job. -/
def Outcome.ofResult : Except Failure String → Outcome
  | .ok output => ⟨0, output⟩
  | .error f => ⟨f.code.number, (ErrorResponse.ofFailure f).toJson.emit⟩

variable {m : Type → Type} [Monad m]

/-- Runs what is asked for. -/
def Request.run (read : Source → m Contents) : Request → m Outcome
  | .version => return ⟨0, versionLine⟩
  | .explain job _ => do return .ofResult (← job.run read)

/-- Runs the program. -/
def program (arguments : List String) (read : Source → m Contents) : m Outcome :=
  match Request.ofArguments arguments with
  | .error _ => return ⟨usageExitCode, ""⟩
  | .ok request => request.run read

end SelectorExplain
