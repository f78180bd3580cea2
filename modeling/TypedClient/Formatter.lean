import TypedClient.Host.Basic
import TypedClient.Text.Utf8
import TypedClient.Failure

/-! Formatting code with a program from outside. Code that cannot be formatted stays as it is. The
calls of one run share a flag that says whether the program can be started: the call that finds out
that it cannot takes the flag down and reports it, and calls that see the flag down do not try. -/

namespace TypedClient.Formatter

/-- How far a call has come. -/
inductive Stage where
  /-- Before the flag is read. -/
  | waiting
  /-- The flag was up, the program is about to be started. -/
  | starting
  /-- The program could not be started, the flag is about to be taken down. -/
  | refused (error : String)
  | done (code : String) (warning : Option Warning)
  deriving DecidableEq, Repr

/-- A call: the file, its code, and what comes of starting the program. -/
structure Call where
  file : String
  code : String
  run : FormatterRun
  stage : Stage := .waiting
  deriving DecidableEq, Repr

/-- What a program that has ended leaves: its output, unless it failed or the output is blank. -/
def outcome (file code : String) (success : Bool) (output errors : List UInt8) :
    String × Option Warning :=
  if !success then
    (code, some (.formatterFailed file (Text.trim (Text.decodeLossy errors))))
  else match Text.decode? output with
    | .error fault => (code, some (.formatterFailed file fault.message))
    | .ok text => (if Text.trim text = "" then code else text, none)

/-- One step of a call, which changes nothing but the call and the flag. -/
def step (up : Bool) (c : Call) : Bool × Call :=
  match c.stage with
  | .waiting => (up, { c with stage := if up then .starting else .done c.code none })
  | .starting =>
    match c.run with
    | .notStarted error => (up, { c with stage := .refused error })
    | .ended success output errors =>
      let (code, warning) := outcome c.file c.code success output errors
      (up, { c with stage := .done code warning })
  | .refused error =>
    (false, { c with
      stage := .done c.code (if up then some (.formatterUnavailable error) else none) })
  | .done .. => (up, c)

/-- A call on its own: three steps. -/
def settle (up : Bool) (c : Call) : Bool × Call :=
  let (up, c) := step up c
  let (up, c) := step up c
  step up c

/-- What a call gives back. -/
def Call.result (c : Call) : String × Option Warning :=
  match c.stage with
  | .done code warning => (code, warning)
  | _ => (c.code, none)

variable {m : Type → Type} [Monad m] [Host m]

/-- Formats the code of a file, and says whether the program still counts as one that can be
started. -/
def format (up : Bool) (file code : String) : m (Bool × String × Option Warning) := do
  if up then
    let run ← Host.runFormatter file code
    let (up, call) := settle up { file, code, run }
    pure (up, call.result)
  else pure (up, code, none)

end TypedClient.Formatter
