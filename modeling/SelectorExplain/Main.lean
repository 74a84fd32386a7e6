import SelectorExplain.Command.Program

set_option autoImplicit false

/-! # The command line program

Files and streams are read and written here and nowhere else. -/

namespace SelectorExplain

/-- A reason of the system with its number, which may come negated and the reason in small
    letters. -/
def systemError (number : UInt32) (reason : String) : ReadError :=
  let n := number.toNat
  .system reason.capitalize (if n < Nat.pow 2 31 then n else Nat.pow 2 32 - n)

/-- Why a source could not be read. -/
def readError : IO.Error → ReadError
  | .alreadyExists _ number reason => systemError number reason
  | .otherError number reason => systemError number reason
  | .resourceBusy number reason => systemError number reason
  | .resourceVanished number reason => systemError number reason
  | .unsupportedOperation number reason => systemError number reason
  | .hardwareFault number reason => systemError number reason
  | .unsatisfiedConstraints number reason => systemError number reason
  | .illegalOperation number reason => systemError number reason
  | .protocolError number reason => systemError number reason
  | .timeExpired number reason => systemError number reason
  | .interrupted _ number reason => systemError number reason
  | .noFileOrDirectory _ number reason => systemError number reason
  | .invalidArgument _ number reason => systemError number reason
  | .permissionDenied _ number reason => systemError number reason
  | .resourceExhausted _ number reason => systemError number reason
  | .inappropriateType _ number reason => systemError number reason
  | .noSuchThing _ number reason => systemError number reason
  | .unexpectedEof => .notUtf8
  | .userError reason => .badName reason

/-- Reads a stream to its end. -/
partial def readAll (stream : IO.FS.Stream) (sofar : ByteArray) : IO ByteArray := do
  let more ← stream.read 65536
  if more.isEmpty then return sofar else readAll stream (sofar ++ more)

/-- Reads a source. -/
def readSource (s : Source) : IO Contents := do
  try
    match s with
    | .standardInput => return .ok (← readAll (← IO.getStdin) .empty)
    | .file path => return .ok (← IO.FS.readBinFile path)
  catch e => return .error (readError e)

/-- Runs the program and prints what it answers; wrong arguments are explained on standard error. -/
def start (arguments : List String) : IO UInt32 := do
  if let .error e := Request.ofArguments arguments then
    (← IO.getStderr).putStrLn ("error: " ++ e.message)
  let outcome ← program arguments readSource
  let out ← IO.getStdout
  out.putStr outcome.output
  out.flush
  return outcome.exitCode.toUInt32

end SelectorExplain

def main (arguments : List String) : IO UInt32 := SelectorExplain.start arguments
