import TypedClient.Client.Action
import TypedClient.Terminal.Basic

/-! Commands as they are given: what to do, and how to write about it. -/

namespace TypedClient.CommandLine

def programName : String := "swagger-gen"

def version : String := "0.9.0"

/-- What to generate: the targets of a configuration, or one document into one directory. -/
inductive Origin where
  | configuration (path : String)
  | document (input basePath : String)
  deriving DecidableEq, Repr

structure GenerateCommand where
  origin : Origin
  noModels : Bool := false
  noClient : Bool := false
  noFormat : Bool := false
  noIndex : Bool := false
  noClean : Bool := false
  extension : Option String := none
  modelTemplate : Option String := none
  clientTemplate : Option String := none
  responseType : Option ResponseType := none
  verbose : Bool := false
  quiet : Bool := false
  deriving DecidableEq, Repr

inductive Command where
  /-- Lists the actions of a document. -/
  | listActions (input : String)
  | generate (c : GenerateCommand)
  deriving DecidableEq, Repr

/-- What arguments ask for. -/
inductive Invocation where
  | help | version
  /-- Arguments that make no command. -/
  | misuse
  | run (color : Terminal.ColorMode) (theme : Terminal.ThemeMode) (command : Command)
  deriving DecidableEq, Repr

end TypedClient.CommandLine
