import TypedClient.Path

/-! What a run asks of the machine it runs on: files, directories, a formatter and documents from
elsewhere. Everything is asked through `Host`, so that a run can be followed on a file tree in
memory as well as on a real one. -/

namespace TypedClient

/-- Why a file or directory could not be used. -/
inductive FileError where
  | missing | busy | alreadyThere | notDirectory | isDirectory | invalidArgument | notEmpty
  | other (text : String)
  deriving DecidableEq, Repr

def FileError.message : FileError → String
  | .missing => "No such file or directory (os error 2)"
  | .busy => "Device or resource busy (os error 16)"
  | .alreadyThere => "File exists (os error 17)"
  | .notDirectory => "Not a directory (os error 20)"
  | .isDirectory => "Is a directory (os error 21)"
  | .invalidArgument => "Invalid argument (os error 22)"
  | .notEmpty => "Directory not empty (os error 39)"
  | .other text => text

/-- What comes of starting a formatter. -/
inductive FormatterRun where
  | notStarted (error : String)
  | ended (success : Bool) (output errors : List UInt8)
  deriving DecidableEq, Repr

class Host (m : Type → Type) where
  readText : String → m (Except FileError String)
  /-- Writes a file anew, in a directory that is there. -/
  writeText : String → String → m (Except FileError Unit)
  /-- Whether something is at a path. -/
  isThere : String → m (Except FileError Bool)
  isDirectory : String → m Bool
  /-- Makes one directory. -/
  makeDirectory : String → m (Except FileError Unit)
  /-- Removes a directory with everything in it. -/
  removeTree : String → m (Except FileError Unit)
  /-- Hands the code of a file to the formatter. -/
  runFormatter : String → String → m FormatterRun
  /-- The text under a URL, or what went wrong. -/
  fetchText : String → m (Except String String)

namespace Host

variable {m : Type → Type} [Monad m] [Host m]

/-- Whether a directory that could not be made is there all the same. -/
def unlessThere (path : String) (e : FileError) : m (Except FileError Unit) := do
  if ← isDirectory path then pure (.ok ()) else pure (.error e)

/-- Makes a directory whose parents, `fuel` of them at most, are made first if they are missing. -/
def makeWithin : Nat → String → m (Except FileError Unit)
  | 0, path => unlessThere path .missing
  | fuel + 1, path => do
    match ← makeDirectory path with
    | .ok () => pure (.ok ())
    | .error .missing =>
      match Path.parent? path with
      | none => pure (.error (.other "failed to create whole tree"))
      | some parent =>
        match ← if parent = "" then pure (.ok ()) else makeWithin fuel parent with
        | .error e => pure (.error e)
        | .ok () =>
          match ← makeDirectory path with
          | .ok () => pure (.ok ())
          | .error e => unlessThere path e
    | .error e => unlessThere path e

/-- Makes a directory and its parents. A path has fewer of them than characters. -/
def makeDirectories (path : String) : m (Except FileError Unit) :=
  if path = "" then pure (.ok ()) else makeWithin (path.length + 1) path

end Host

end TypedClient
