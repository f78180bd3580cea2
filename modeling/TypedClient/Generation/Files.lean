import TypedClient.Code.Presets
import TypedClient.Code.Rendering
import TypedClient.Config.Settings
import TypedClient.Projection

/-! The files of a run before they are written: which code goes where. Models with the same key
share a file; the index file passes on what every model file exports; the file of a client imports
the models that have been given a file. -/

namespace TypedClient.Generation

/-- A file to be written, and whether its code is formatted first. -/
structure PendingFile where
  path : String
  code : String
  format : Bool
  deriving DecidableEq, Repr, Inhabited

/-! ### Models -/

/-- The models of a run and the paths of their files by key. -/
structure ModelFiles where
  models : List ModelEntry := []
  paths : Assoc String String := []
  indexPath : Option String := none
  deriving DecidableEq, Repr, Inhabited

def modelCode [Code.Templates] (o : ModelOptions) (m : ModelEntry) : Except Failure String :=
  match o.transform with
  | none => .ok (Code.model m)
  | some (.template text) => Code.Templates.render text m.toJson
  | some (.function code) => .ok (code m)

/-- The codes of models by key, keys in the order in which they first come. -/
def byKey (codes : List (String × String)) : Assoc String (List String) :=
  codes.foldl (fun sources c => Assoc.modify sources c.1 [] (· ++ [c.2])) []

/-- The path of a model file. Its extension is always put to it, as keys may hold dots. -/
def modelPath (base : String) (o : ModelOptions) (key : String) : String :=
  Output.path base o.place key .models (Output.extension o.extension) true

/-- The path of the index file. -/
def indexPath (base : String) (o : ModelOptions) (name : String) : String :=
  Output.path base o.place name .models (Output.extension o.extension) false

def indexCode (keys : List String) : String :=
  String.intercalate "\n" (keys.map fun key => "export * from \"./" ++ key ++ "\";")

/-- The files of models whose codes are known. -/
def modelFiles (base : String) (o : ModelOptions) (models : List ModelEntry)
    (sources : Assoc String (List String)) : ModelFiles × List PendingFile :=
  let keys := Assoc.keys sources
  let indexPath := o.index.name?.map (indexPath base o)
  let files := sources.map fun s =>
    { path := modelPath base o s.1, code := Code.merge s.2, format := o.format }
  let index := indexPath.toList.map fun path =>
    { path, code := indexCode keys, format := false }
  ({ models, paths := keys.map fun key => (key, modelPath base o key), indexPath },
    files ++ index)

def stageModels [Code.Templates] (base : String) (o : ModelOptions) (models : List ModelEntry) :
    Except Failure (ModelFiles × List PendingFile) := do
  let models := match o.hook with
    | none => models
    | some hook => models.map hook
  let codes ← models.mapM (modelCode o)
  pure (modelFiles base o models (byKey ((models.map ModelEntry.key).zip codes)))

/-! ### The client -/

/-- The client of a run and the paths of its files by name. -/
structure ClientFiles where
  client : ApiDefinition := {}
  paths : Assoc String String := []
  deriving DecidableEq, Repr, Inhabited

/-- What a client file is called unless a function names it. -/
def clientName : String := "index"

def clientPath (base : String) (o : ClientOptions) (place : Option OutputPlace) : String :=
  Output.path base place clientName .apis (Output.extension o.extension) false

/-- Where a file of a function goes. What its own function makes of the usual path is final. -/
def madePath (base : String) (o : ClientOptions) (f : ClientFile) : String :=
  match f.place with
  | some (.custom place) => place (clientPath base o none)
  | place => clientPath base o place

/-- One import for each name that a model file exports, with the path of that file. -/
def clientDependencies (f : ModelFiles) : List ClientDependency :=
  (f.models.map fun m => (m.key, m.exportName)).eraseDups.filterMap fun (key, name) =>
    (Assoc.get? f.paths key).map fun path => { id := key, modules := name, fileId := path }

def stageClient [Code.Templates] (base : String) (o : ClientOptions) (client : ApiDefinition) :
    Except Failure (ClientFiles × List PendingFile) := do
  match o.transform with
  | some (.function files) =>
    let made := (files client (clientPath base o none)).map fun f => (madePath base o f, f.code)
    pure ({ client, paths := Assoc.ofPairs (made.map fun f => (Path.stem f.1, f.1)) },
      made.map fun f => { path := f.1, code := f.2, format := o.format })
  | transform =>
    let code ← match transform with
      | some (.template text) => Code.Templates.render text client.toJson
      | _ => pure (Code.client client)
    let path := clientPath base o o.place
    pure ({ client, paths := [(clientName, path)] }, [{ path, code, format := o.format }])

/-! ### Both -/

/-- All files of a target, in the order in which they are written. -/
structure Staged where
  models : ModelFiles := {}
  client : Option ClientFiles := none
  files : List PendingFile := []
  deriving Inhabited

/-- The files of a projection. A client imports nothing when no models are written. -/
def stage [Code.Templates] (base : String) (s : TargetSettings) (p : Projection) :
    Except Failure Staged := do
  let (models, modelFiles) ← match s.models with
    | none => pure ({}, [])
    | some o => stageModels base o p.models
  match s.client with
  | none => pure { models, files := modelFiles }
  | some o =>
    let client := { p.client with dependencies := clientDependencies models }
    let (client, clientFiles) ← stageClient base o client
    pure { models, client := some client, files := modelFiles ++ clientFiles }

end TypedClient.Generation
