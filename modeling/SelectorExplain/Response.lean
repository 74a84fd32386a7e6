import SelectorExplain.Document.Json
import SelectorExplain.Failure
import SelectorExplain.Json.Decoder

set_option autoImplicit false

/-! # Responses

What the program prints as JSON: an explanation, or a report of a failure. Every response starts
with its status and the version of its format, and is printed over several lines with a newline at
the end. Reports can also be read back. -/

namespace SelectorExplain

open Json (Decoder Record)

/-- The version of the format of responses. -/
def schemaVersion : String := "1"

/-- Prints a response. -/
def JsonValue.emit (v : JsonValue) : String := v.pretty ++ "\n"

/-! ## Explanations -/

/-- A selector with its explanation. -/
structure ExplainResponse where
  selector : String
  document : Document

/-- The response of a finished explainer. -/
def Explainer.response (x : Explainer) : ExplainResponse where
  selector := x.text
  document := x.document

def ExplainResponse.toJson (r : ExplainResponse) : JsonValue :=
  .obj [("status", .str "ok"), ("schema_version", .str schemaVersion),
    ("selector", .str r.selector), ("document", r.document.toJson)]

/-! ## Reports of failures -/

/-- What has gone wrong, for callers. -/
structure ErrorInfo where
  code : UInt8
  message : String
  deriving DecidableEq, Repr

/-- A report of a failure. -/
structure ErrorResponse where
  status : String
  schemaVersion : String
  error : ErrorInfo
  deriving DecidableEq, Repr

def ErrorInfo.ofFailure (f : Failure) : ErrorInfo := ⟨f.code.number, f.message⟩

def ErrorResponse.ofFailure (f : Failure) : ErrorResponse where
  status := "error"
  schemaVersion := SelectorExplain.schemaVersion
  error := .ofFailure f

def ErrorInfo.toJson (e : ErrorInfo) : JsonValue :=
  .obj [("code", .nat e.code.toNat), ("message", .str e.message)]

def ErrorResponse.toJson (r : ErrorResponse) : JsonValue :=
  .obj [("status", .str r.status), ("schema_version", .str r.schemaVersion),
    ("error", r.error.toJson)]

/-! ## Reading reports -/

/-- What has been read of an error. -/
structure ErrorInfoFields where
  code : Option Nat := none
  message : Option String := none

def errorInfoRecord : Record ErrorInfoFields ErrorInfo where
  name := "ErrorInfo"
  fields :=
    [.of "code" true (·.code) (fun s v => { s with code := some v }) (Json.natural (Nat.pow 2 8) "u8"),
      .of "message" true (·.message) (fun s v => { s with message := some v }) Json.string]
  start := {}
  finish := fun s => match s.code, s.message with
    | none, _ => .error (.missingField "code")
    | _, none => .error (.missingField "message")
    | some code, some message => .ok ⟨.ofNat code, message⟩

def ErrorInfo.decoder (depth : Nat) : Decoder ErrorInfo := errorInfoRecord.read (0 < depth)

/-- What has been read of a report. -/
structure ErrorResponseFields where
  status : Option String := none
  schemaVersion : Option String := none
  error : Option ErrorInfo := none

def errorResponseRecord (depth : Nat) : Record ErrorResponseFields ErrorResponse where
  name := "ErrorResponse"
  fields :=
    [.of "status" true (·.status) (fun s v => { s with status := some v }) Json.string,
      .of "schema_version" true (·.schemaVersion) (fun s v => { s with schemaVersion := some v })
        Json.string,
      .of "error" true (·.error) (fun s v => { s with error := some v }) (ErrorInfo.decoder depth)]
  start := {}
  finish := fun s => match s.status, s.schemaVersion, s.error with
    | none, _, _ => .error (.missingField "status")
    | _, none, _ => .error (.missingField "schema_version")
    | _, _, none => .error (.missingField "error")
    | some status, some version, some error => .ok ⟨status, version, error⟩

def ErrorResponse.decoder (depth : Nat) : Decoder ErrorResponse :=
  (errorResponseRecord (depth - 1)).read (0 < depth)

end SelectorExplain
