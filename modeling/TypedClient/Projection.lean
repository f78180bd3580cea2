import TypedClient.Client.Project
import TypedClient.Failure

/-! A document in the form in which it is generated: its types, models and client. All named schemas
are resolved first, then the schemas inside operations; the models come last. A summary counts what
was made and keeps what is to be reported. -/

namespace TypedClient

structure Summary where
  typesResolved : Nat := 0
  models : Nat := 0
  classes : Nat := 0
  interfaces : Nat := 0
  enums : Nat := 0
  actions : Nat := 0
  controllers : Nat := 0
  namespaces : Nat := 0
  filesWritten : Nat := 0
  /-- Each reference cycle that was cut, as the names along it. -/
  cyclicReferences : List (List String) := []
  /-- The groups of model files that import each other. -/
  importCycles : List (List String) := []
  warnings : List Warning := []
  deriving DecidableEq, Repr, Inhabited

namespace Summary

def addModel (s : Summary) (m : ModelEntry) : Summary :=
  let s := { s with models := s.models + 1 }
  match m.definition with
  | .class => { s with classes := s.classes + 1 }
  | .enum => { s with enums := s.enums + 1 }
  | .interface | .type => { s with interfaces := s.interfaces + 1 }

def addModels (s : Summary) (models : List ModelEntry) : Summary := models.foldl addModel s

/-- Counts a client; the controllers of namespaces count as controllers. -/
def addClient (s : Summary) (d : ApiDefinition) : Summary :=
  let controllers := d.controllers ++ d.namespaces.flatMap ClientNamespace.controllers
  { s with
    actions := s.actions + d.allActions.length
    controllers := s.controllers + controllers.length
    namespaces := s.namespaces + d.namespaces.length }

def warn (s : Summary) (warnings : List Warning) : Summary :=
  { s with warnings := s.warnings ++ warnings }

/-- Counts reference cycles and warns of each. -/
def addCyclicReferences (s : Summary) (cycles : List (List String)) : Summary :=
  { s with cyclicReferences := s.cyclicReferences ++ cycles }.warn
    (cycles.map fun c => .cyclicReference (String.intercalate " -> " c))

def addImportCycles (s : Summary) (cycles : List (List String)) : Summary :=
  { s with importCycles := s.importCycles ++ cycles }

def addFiles (s : Summary) (n : Nat) : Summary := { s with filesWritten := s.filesWritten + n }

end Summary

/-! ### Projections -/

structure Projection where
  types : ResolvedTypes
  models : List ModelEntry
  client : ApiDefinition
  warnings : List Warning
  deriving Inhabited

namespace Projection

/-- What resolution has left behind. -/
def typesOf (r : Resolver) : ResolvedTypes :=
  { graph := r.graph, registry := r.registry, cycles := r.cycles }

variable [MediaType.Reading] [Text.Transliteration]

/-- Resolves all named schemas, then makes the client. -/
def resolve (d : Document) (options : Client.Options) :
    Resolving (ApiDefinition × List Warning) := do
  Resolver.all d
  Client.project d options

def build (d : Document) (options : Client.Options) : Except Failure Projection :=
  match (resolve d options).run.run {} with
  | (.error e, _) => .error e
  | (.ok (client, warnings), r) =>
    let types := typesOf r
    .ok { types, models := Model.project types, client, warnings }

def summary [Graph.Components] (p : Projection) : Summary :=
  let s : Summary := { typesResolved := p.types.graph.size }
  ((((s.addCyclicReferences p.types.cycles).warn p.warnings).addModels p.models).addImportCycles
    (Model.importCycles p.models)).addClient p.client

end Projection

end TypedClient
