import Std.Time
import TypedClient.CommandLine.Run

/-! The command line on a real machine. Nothing is fetched and no formatter is started: a document
comes from a file, and code is written as it is made. -/

namespace TypedClient.Main

/-- Why the machine refused. -/
def fileError : IO.Error → FileError
  | .noFileOrDirectory .. => .missing
  | .resourceBusy .. => .busy
  | .alreadyExists .. => .alreadyThere
  | .invalidArgument .. => .invalidArgument
  | .unsatisfiedConstraints .. => .notEmpty
  | .inappropriateType _ code _ => if code = 20 then .notDirectory else .isDirectory
  | e => .other (toString e)

def attempt {α : Type} (act : IO α) : IO (Except FileError α) := do
  match ← act.toBaseIO with
  | .ok a => pure (.ok a)
  | .error e => pure (.error (fileError e))

def readText (path : String) : IO (Except FileError String) := do
  match ← attempt (IO.FS.readBinFile path) with
  | .error e => pure (.error e)
  | .ok bytes =>
    match String.fromUTF8? bytes with
    | some text => pure (.ok text)
    | none => pure (.error (.other "stream did not contain valid UTF-8"))

def isThere (path : String) : IO (Except FileError Bool) := do
  match ← attempt (IO.FS.Handle.mk path .read) with
  | .ok _ => pure (.ok true)
  | .error .missing => pure (.ok false)
  | .error e => pure (.error e)

instance : Host IO where
  readText := readText
  writeText path text := attempt (IO.FS.writeFile path text)
  isThere := isThere
  isDirectory path := do
    match ← attempt (IO.FS.realPath path) with
    | .ok found => found.isDir
    | .error _ => pure false
  makeDirectory path := attempt (IO.FS.createDir path)
  removeTree path := attempt (IO.FS.removeDirAll path)
  runFormatter _ _ :=
    pure (.notStarted "prettier: No such file or directory (os error 2)")
  fetchText _ := pure (.error "builder error")

instance : Console IO where
  print
    | .output, line => IO.println line
    | .errors, line => IO.eprintln line
  clock := do
    let now ← Std.Time.PlainTime.now
    pure (Terminal.clockText now.hour.val.toNat now.minute.val.toNat now.second.val.toNat)

end TypedClient.Main

open TypedClient in
def main (args : List String) : IO UInt32 := do
  let directory := (← IO.currentDir).toString
  let env : Terminal.Environment :=
    { noColor := ← IO.getEnv "NO_COLOR", colorFgBg := ← IO.getEnv "COLORFGBG" }
  pure (UInt32.ofNat (← CommandLine.run directory env args))
