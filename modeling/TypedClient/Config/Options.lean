import TypedClient.Client.Action
import TypedClient.Json.Shape

/-! Configurations as they are written: a list of targets, each a document and what to generate from
it. Options are taken from JSON values that keep every member of an object, and a value either fits
or does not: `none` says that it does not. -/

namespace TypedClient.Config

/-- Something that is switched on or off, or on with options. -/
inductive Toggle (α : Type) where
  | flag (on : Bool)
  | options (o : α)
  deriving DecidableEq, Repr, Inhabited

/-- The options of what is switched on. -/
def Toggle.options? {α : Type} [Inhabited α] : Toggle α → Option α
  | .flag false => none
  | .flag true => some default
  | .options o => some o

/-- Whether models have an index file, or what it is called. -/
inductive IndexSetting where
  | flag (on : Bool)
  | name (name : String)
  deriving DecidableEq, Repr, Inhabited

structure ModelFileOptions where
  output : Option String := none
  template : Option String := none
  templateFile : Option String := none
  index : Option IndexSetting := none
  format : Option Bool := none
  extension : Option String := none
  deriving DecidableEq, Repr, Inhabited

structure ClientFileOptions where
  output : Option String := none
  template : Option String := none
  templateFile : Option String := none
  format : Option Bool := none
  extension : Option String := none
  responseType : Option ResponseType := none
  deriving DecidableEq, Repr, Inhabited

/-- What to generate. -/
structure Outputs where
  models : Toggle ModelFileOptions := .flag true
  client : Toggle ClientFileOptions := .flag true
  deriving DecidableEq, Repr, Inhabited

structure Target where
  url : String := ""
  basePath : String := ""
  clean : Bool := true
  outputs : Outputs := {}
  deriving DecidableEq, Repr, Inhabited

/-! ### Single values -/

/-- Null stands for nothing. -/
def optional? {α : Type} (read : Json → Option α) (v : Json) : Option (Option α) :=
  match v with
  | .null => some none
  | v => (read v).map some

def indexSetting? : Json → Option IndexSetting
  | .bool on => some (.flag on)
  | .str name => some (.name name)
  | _ => none

/-- A response type by its name, which may also be the only member of an object, with null. -/
def responseType? (v : Json) : Option ResponseType :=
  let named (s : String) := ResponseType.all.find? fun r => r.name == s
  match v with
  | .str s => named s
  | .obj [(s, .null)] => named s
  | _ => none

/-! ### Records -/

/-- Sets the field of a name to a value; other names are passed over. -/
abbrev Setter (ρ : Type) := String → Json → ρ → Option ρ

/-- Fills a record from the members of an object. A field may stand there once. -/
def fromMembers? {ρ : Type} (fields : List String) (set : Setter ρ) :
    List String → List (String × Json) → ρ → Option ρ
  | _, [], r => some r
  | seen, (name, v) :: rest, r =>
    if fields.contains name then
      if seen.contains name then none
      else (set name v r).bind (fromMembers? fields set (name :: seen) rest)
    else fromMembers? fields set seen rest r

/-- Fills a record from a list of the values of all fields in order. -/
def fromItems? {ρ : Type} (set : Setter ρ) : List String → List Json → ρ → Option ρ
  | [], [], r => some r
  | name :: names, v :: vs, r => (set name v r).bind (fromItems? set names vs)
  | _, _, _ => none

def fromJson? {ρ : Type} [Inhabited ρ] (fields : List String) (set : Setter ρ) (v : Json) :
    Option ρ :=
  match v with
  | .obj members => fromMembers? fields set [] members default
  | .arr items => fromItems? set fields items default
  | _ => none

/-! ### Models and clients -/

def modelFields : List String :=
  ["output", "transform", "transformFile", "dts", "prettier", "extension"]

def setModelField : Setter ModelFileOptions := fun name v r =>
  let text := optional? Json.asString? v
  match name with
  | "output" => text.map fun t => { r with output := t }
  | "transform" => text.map fun t => { r with template := t }
  | "transformFile" => text.map fun t => { r with templateFile := t }
  | "dts" => (optional? indexSetting? v).map fun i => { r with index := i }
  | "prettier" => (optional? Json.asBool? v).map fun b => { r with format := b }
  | "extension" => text.map fun t => { r with extension := t }
  | _ => some r

def clientFields : List String :=
  ["output", "transform", "transformFile", "prettier", "extension", "defaultResponseType"]

def setClientField : Setter ClientFileOptions := fun name v r =>
  let text := optional? Json.asString? v
  match name with
  | "output" => text.map fun t => { r with output := t }
  | "transform" => text.map fun t => { r with template := t }
  | "transformFile" => text.map fun t => { r with templateFile := t }
  | "prettier" => (optional? Json.asBool? v).map fun b => { r with format := b }
  | "extension" => text.map fun t => { r with extension := t }
  | "defaultResponseType" => (optional? responseType? v).map fun t => { r with responseType := t }
  | _ => some r

/-- A switch: a truth value, or options. -/
def toggle? {ρ : Type} [Inhabited ρ] (fields : List String) (set : Setter ρ) (v : Json) :
    Option (Toggle ρ) :=
  match v with
  | .bool on => some (.flag on)
  | v => (fromJson? fields set v).map .options

end TypedClient.Config
