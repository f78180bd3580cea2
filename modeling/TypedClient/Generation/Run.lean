import TypedClient.Document.Reader
import TypedClient.Generation.Writing

/-! A run from a document to files. The base path is emptied before the document is loaded; that it
cannot be emptied is reported and does not end the run. -/

namespace TypedClient

/-- Why a run came to no end. -/
inductive RunFailure where
  | document (f : Failure)
  | file (f : FileFailure)
  deriving DecidableEq, Repr

/-- What went wrong, then what caused it. -/
def RunFailure.chain : RunFailure → List String
  | .document f => f.chain
  | .file f => f.chain

/-- What went wrong and what caused it in one line. -/
def chainText (chain : List String) : String := String.intercalate ": " chain

namespace DocumentSource

variable {m : Type → Type} [Monad m] [Host m]

/-- The text of a document as JSON, or what is wrong with what has been loaded. -/
def parseText (source : DocumentSource) (what text : String) : Except Failure Json :=
  match Json.parse text with
  | .ok v => .ok v
  | .error e => .error (.fetch source.text (what ++ " is not valid JSON: " ++ e.message))

/-- Why the document in a file cannot be loaded. A document is mapped into memory, which cannot be
done with a directory. -/
def fileReason (path : String) : FileError → String
  | .isDirectory => "No such device (os error 19): mmap failed"
  | e => path ++ ": unable to open file: " ++ e.message ++ ": IO error"

/-- The JSON that a document is written in. -/
def fetch (source : DocumentSource) : m (Except Failure Json) := do
  match source with
  | .url address =>
    match ← Host.fetchText address with
    | .ok text => pure (parseText source "response" text)
    | .error reason => pure (.error (.fetch address reason))
  | .file path =>
    match ← Host.readText path with
    | .ok text => pure (parseText source "file" text)
    | .error e => pure (.error (.fetch path (fileReason path e)))
  | .provided (.ok v) => pure (.ok v)
  | .provided (.error reason) => pure (.error (.fetch source.text reason))

def load (source : DocumentSource) : m (Except Failure Document) := do
  match ← source.fetch with
  | .ok v => pure (Document.ofJson v)
  | .error e => pure (.error e)

end DocumentSource

namespace Generation

/-- What a run has made. -/
structure Report where
  source : String
  basePath : String
  version : Version
  title : Option String
  models : ModelFiles
  client : Option ClientFiles
  summary : Summary

/-- The directory below which files go. -/
def basePath (directory : String) (s : TargetSettings) : String := Path.join directory s.basePath

/-- How a client is made for these settings; without a client the usual way. -/
def clientOptions (s : TargetSettings) : Client.Options :=
  match s.client with
  | some o => { responseType := o.responseType, hook := o.hook }
  | none => {}

variable [MediaType.Reading] [Text.Transliteration] [Code.Templates] [Graph.Components]

/-- A document as a projection with its files. -/
def prepare (base : String) (s : TargetSettings) (d : Document) :
    Except Failure (Projection × Staged) := do
  let p ← Projection.build d (clientOptions s)
  pure (p, ← stage base s p)

variable {m : Type → Type} [Monad m] [Host m]

/-- The warning that comes of emptying the base path, if that is asked for. -/
def clean (base : String) (s : TargetSettings) : m (Option Warning) := do
  if s.clean then
    match ← emptyDirectory base with
    | .ok () => pure none
    | .error e => pure (some (.cleanFailed base (chainText e.chain)))
  else pure none

def report (base : String) (s : TargetSettings) (d : Document) (p : Projection) (staged : Staged)
    (cleaned : Option Warning) (w : Written) : Report :=
  { source := s.source.text
    basePath := base
    version := d.version
    title := d.title
    models := staged.models
    client := staged.client
    summary := ((p.summary.warn cleaned.toList).addFiles w.count).warn w.warnings }

/-- Generates the files of one target. Says as well whether the formatter still counts as one that
can be started. -/
def run (directory : String) (up : Bool) (s : TargetSettings) :
    m (Bool × Except RunFailure Report) := do
  let base := basePath directory s
  let cleaned ← clean base s
  match ← s.source.load with
  | .error e => pure (up, .error (.document e))
  | .ok d =>
    match prepare base s d with
    | .error e => pure (up, .error (.document e))
    | .ok (p, staged) =>
      let w ← writeAll up staged.files
      pure (w.up, match w.failure with
        | some e => .error (.file e)
        | none => .ok (report base s d p staged cleaned w))

end Generation

end TypedClient
