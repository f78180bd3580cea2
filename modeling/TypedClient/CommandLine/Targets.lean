import TypedClient.CommandLine.Basic
import TypedClient.Generation.Run

/-! The targets of a command. What is said on the command line counts for every target, over what a
configuration says. -/

namespace TypedClient.CommandLine

/-- Why a command comes to no good end. -/
inductive CommandFailure where
  | run (f : RunFailure)
  | noTargets
  | targets (failed total : Nat)
  deriving DecidableEq, Repr

/-- What went wrong, then what caused it. -/
def CommandFailure.chain : CommandFailure → List String
  | .run f => f.chain
  | .noTargets => ["No targets to generate: the configuration has an empty apiDocs list"]
  | .targets failed total =>
    [toString failed ++ " of " ++ toString total ++ " targets failed"]

namespace GenerateCommand

def overrideModels (c : GenerateCommand) (o : ModelOptions) : ModelOptions :=
  { o with
    format := o.format && !c.noFormat
    index := if c.noIndex then .none else o.index
    extension := c.extension.orElse fun _ => o.extension }

def overrideClient (c : GenerateCommand) (o : ClientOptions) : ClientOptions :=
  { o with
    format := o.format && !c.noFormat
    extension := c.extension.orElse fun _ => o.extension
    responseType := c.responseType.getD o.responseType }

/-- The settings of a target with what the command says. -/
def override (c : GenerateCommand) (s : TargetSettings) : TargetSettings :=
  { s with
    clean := s.clean && !c.noClean
    models := if c.noModels then none else s.models.map c.overrideModels
    client := if c.noClient then none else s.client.map c.overrideClient }

variable {m : Type → Type} [Monad m] [Host m]

/-- The template in a file, if there is to be one. -/
def readTemplate (path : Option String) : m (Except FileFailure (Option String)) := do
  match path with
  | none => pure (.ok none)
  | some path =>
    match ← Host.readText path with
    | .ok text => pure (.ok (some text))
    | .error error => pure (.error { task := .readTemplate, path, error })

/-- The directory that a configuration stands in. -/
def directoryOf (path : String) : String := (Path.parent? path).getD "."

/-- The settings that a configuration asks for. -/
def configured (path : String) : m (Except Failure (List TargetSettings)) := do
  match ← Config.load path with
  | .error e => pure (.error e)
  | .ok targets => Config.allSettings (directoryOf path) targets

/-- The settings for a single document. -/
def single (c : GenerateCommand) (input basePath : String) :
    m (Except FileFailure TargetSettings) := do
  match ← readTemplate c.modelTemplate with
  | .error e => pure (.error e)
  | .ok modelTemplate =>
    match ← readTemplate c.clientTemplate with
    | .error e => pure (.error e)
    | .ok clientTemplate =>
      pure (.ok {
        source := .ofText input
        basePath
        models := some { transform := modelTemplate.map .template }
        client := some { transform := clientTemplate.map .template } })

/-- The targets of a command. -/
def targets (c : GenerateCommand) : m (Except CommandFailure (List TargetSettings)) := do
  let settings : Except CommandFailure (List TargetSettings) ← match c.origin with
    | .configuration path => do
      pure ((← configured path).mapError fun e => .run (.document e))
    | .document input basePath => do
      match ← single c input basePath with
      | .ok s => pure (.ok [s])
      | .error e => pure (.error (.run (.file e)))
  pure (match settings with
    | .ok [] => .error .noTargets
    | .ok all => .ok (all.map c.override)
    | .error e => .error e)

end GenerateCommand

end TypedClient.CommandLine
