import TypedClient.Formatter
import TypedClient.Generation.Files

/-! Writing files and emptying directories. A file that cannot be written does not keep the others
from being written. -/

namespace TypedClient

/-- What was to be done with a path. -/
inductive FileTask where
  | look | makeDirectory | write | remove | make | readTemplate
  deriving DecidableEq, Repr

/-- What is said of a path that something could not be done with. -/
def FileTask.message? (path : String) : FileTask → Option String
  | .look => none
  | .makeDirectory => some ("Failed to create directory " ++ path)
  | .write => some ("Failed to write " ++ path)
  | .remove => some ("Failed to remove " ++ path)
  | .make => some ("Failed to create " ++ path)
  | .readTemplate => some ("Cannot read template file " ++ path)

structure FileFailure where
  task : FileTask
  path : String
  error : FileError
  deriving DecidableEq, Repr

/-- What could not be done, and why. -/
def FileFailure.chain (f : FileFailure) : List String :=
  (f.task.message? f.path).toList ++ [f.error.message]

namespace Generation

variable {m : Type → Type} [Monad m] [Host m]

/-- What is done with a path, as a task. -/
def as (task : FileTask) (path : String) {α : Type} (result : Except FileError α) :
    Except FileFailure α :=
  result.mapError fun error => { task, path, error }

/-- Writes a file, in a directory that is made if it is not there. -/
def writeFile (path text : String) : m (Except FileFailure Unit) := do
  let parent := (Path.parent? path).getD ""
  match as .makeDirectory parent (← Host.makeDirectories parent) with
  | .error e => pure (.error e)
  | .ok () => pure (as .write path (← Host.writeText path text))

/-- Empties a directory, or makes it. -/
def emptyDirectory (path : String) : m (Except FileFailure Unit) := do
  let removed ← match ← Host.isThere path with
    | .error e => pure (as .look path (.error e))
    | .ok false => pure (.ok ())
    | .ok true => pure (as .remove path (← Host.removeTree path))
  match removed with
  | .error e => pure (.error e)
  | .ok () => pure (as .make path (← Host.makeDirectories path))

/-- What has been written. -/
structure Written where
  /-- Whether the formatter still counts as one that can be started. -/
  up : Bool
  count : Nat := 0
  warnings : List Warning := []
  /-- The first failure. -/
  failure : Option FileFailure := none
  deriving DecidableEq, Repr

def writePending (w : Written) (f : PendingFile) : m Written := do
  let (up, code, warning) ←
    if f.format then Formatter.format w.up f.path f.code else pure (w.up, f.code, none)
  match ← writeFile f.path code with
  | .ok () =>
    pure { w with up, count := w.count + 1, warnings := w.warnings ++ warning.toList }
  | .error e => pure { w with up, failure := w.failure.orElse fun _ => some e }

def writeAll (up : Bool) (files : List PendingFile) : m Written :=
  files.foldlM writePending { up }

end Generation

end TypedClient
