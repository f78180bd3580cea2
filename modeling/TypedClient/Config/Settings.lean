import TypedClient.Client.Action
import TypedClient.Config.Reader
import TypedClient.Failure
import TypedClient.Host.Basic
import TypedClient.Output

/-! What is to be generated, with everything read that a configuration refers to. -/

namespace TypedClient

/-- Where a document comes from. -/
inductive DocumentSource where
  | url (url : String)
  | file (path : String)
  /-- From the program that asks for the run, or a reason why there is none. -/
  | provided (document : Except String Json)

namespace DocumentSource

/-- Whether a text is the address of something to fetch. -/
def isUrl (s : String) : Bool :=
  let low := Text.lower s
  Text.startsWith low "http://" || Text.startsWith low "https://"

/-- A text as a URL or else as the path of a file. -/
def ofText (s : String) : DocumentSource := if isUrl s then .url s else .file s

def text : DocumentSource → String
  | .url s | .file s => s
  | .provided _ => "<resolver>"

end DocumentSource

/-- What the index file of the models is called, if there is one. -/
inductive IndexFile where
  | none | usual
  | named (name : String)
  deriving DecidableEq, Repr, Inhabited

def IndexFile.name? : IndexFile → Option String
  | .none => Option.none
  | .usual => some "index"
  | .named name => some name

/-- How the code of a model is made: from a template, or by a function. -/
inductive ModelTransform where
  | template (text : String)
  | function (code : ModelEntry → String)

structure ModelOptions where
  place : Option OutputPlace := none
  transform : Option ModelTransform := none
  index : IndexFile := .usual
  format : Bool := true
  extension : Option String := none
  /-- Changes each model before its code is made. -/
  hook : Option (ModelEntry → ModelEntry) := none
  deriving Inhabited

/-- A file that a function makes for a client. -/
structure ClientFile where
  place : Option OutputPlace := none
  code : String

/-- How the code of a client is made: from a template, or by a function that is told the usual path
and makes any number of files. -/
inductive ClientTransform where
  | template (text : String)
  | function (files : ApiDefinition → String → List ClientFile)

structure ClientOptions where
  place : Option OutputPlace := none
  transform : Option ClientTransform := none
  format : Bool := true
  extension : Option String := none
  responseType : ResponseType := .json
  /-- Changes each action before it gets its place. -/
  hook : Option (Action → Action) := none
  deriving Inhabited

/-- One document and what to make of it. -/
structure TargetSettings where
  source : DocumentSource
  basePath : String
  /-- Whether the base path is emptied first. -/
  clean : Bool := true
  models : Option ModelOptions := some {}
  client : Option ClientOptions := some {}

namespace Config

variable {m : Type → Type} [Monad m] [Host m]

/-- The targets that a file lists. -/
def load (path : String) : m (Except Failure (List Target)) := do
  match ← Host.readText path with
  | .ok text => pure (ofText path text)
  | .error e => pure (.error (.invalidConfig path "." e.message))

/-- The template written in a configuration, or else the one in a file, whose path is taken from
the directory of the configuration. -/
def readTemplate (directory : String) (written file : Option String) :
    m (Except Failure (Option String)) := do
  match written, file with
  | some text, _ => pure (.ok (some text))
  | none, none => pure (.ok none)
  | none, some file =>
    let path := Path.join directory file
    match ← Host.readText path with
    | .ok text => pure (.ok (some text))
    | .error e => pure (.error (.invalidConfig path "transformFile" e.message))

def indexFile : Option IndexSetting → IndexFile
  | none | some (.flag true) => .usual
  | some (.flag false) => .none
  | some (.name name) => .named name

def modelOptions (o : ModelFileOptions) (template : Option String) : ModelOptions :=
  { place := o.output.map .directory
    transform := template.map .template
    index := indexFile o.index
    format := o.format.getD true
    extension := o.extension }

def clientOptions (o : ClientFileOptions) (template : Option String) : ClientOptions :=
  { place := o.output.map .directory
    transform := template.map .template
    format := o.format.getD true
    extension := o.extension
    responseType := o.responseType.getD .json }

/-- The settings of a target, templates read. -/
def settings (directory : String) (t : Target) : m (Except Failure TargetSettings) := do
  let models ← match t.outputs.models.options? with
    | none => pure (.ok none)
    | some o => do
      let template ← readTemplate directory o.template o.templateFile
      pure (template.map fun template => some (modelOptions o template))
  match models with
  | .error e => pure (.error e)
  | .ok models =>
    let client ← match t.outputs.client.options? with
      | none => pure (.ok none)
      | some o => do
        let template ← readTemplate directory o.template o.templateFile
        pure (template.map fun template => some (clientOptions o template))
    pure (client.map fun client => {
      source := DocumentSource.ofText t.url
      basePath := t.basePath
      clean := t.clean
      models, client })

/-- The settings of all targets, up to the first one that fails. -/
def allSettings (directory : String) : List Target → m (Except Failure (List TargetSettings))
  | [] => pure (.ok [])
  | t :: rest => do
    match ← settings directory t with
    | .error e => pure (.error e)
    | .ok s =>
      let rest ← allSettings directory rest
      pure (rest.map (s :: ·))

end Config

end TypedClient
