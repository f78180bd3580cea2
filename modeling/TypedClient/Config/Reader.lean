import TypedClient.Config.Options
import TypedClient.Failure
import TypedClient.Json.Skip

/-! Reading configurations straight from their text, so that the first value that does not fit is
reported with its place in the text and its path. A mismatch that shows only when a list or an
object has been read is placed after its closing bracket, if that comes next. What follows the
configuration is not looked at. -/

namespace TypedClient.Config

open Json

/-! ### Refusals -/

/-- What is wrong with a configuration. -/
inductive Cause where
  | fault (f : Fault)
  | mismatch (m : Mismatch)
  deriving DecidableEq, Repr

def Cause.message : Cause → String
  | .fault f => f.message
  | .mismatch m => m.message

/-- A refusal: its cause, the path of the value, and its place once that is settled; until then, the
enclosing list or object settles it from where reading stopped. -/
structure Refusal where
  cause : Cause
  path : List PathStep := []
  place : Option Place := none
  stop : Cursor

namespace Refusal

def ofReadError (c : Cursor) (e : ReadError) : Refusal :=
  { cause := .fault e.fault, path := e.path, place := some e.place, stop := c }

/-- A refusal one step inside a value. -/
def inside (step : PathStep) (r : Refusal) : Refusal := { r with path := step :: r.path }

/-- Gives a refusal its place: where `close` gets from where reading stopped. -/
def settle (close : Cursor → Cursor) (r : Refusal) : Refusal :=
  match r.place with
  | some _ => r
  | none => { r with place := some (close r.stop).place }

end Refusal

/-- What a reader of JSON gives. -/
def lift {α : Type} (c : Cursor) : Except ReadError α → Except Refusal α
  | .ok a => .ok a
  | .error e => .error (.ofReadError c e)

def inside {α : Type} (step : PathStep) :
    Except Refusal (α × Cursor) → Except Refusal (α × Cursor)
  | .ok a => .ok a
  | .error r => .error (r.inside step)

def settle {α : Type} (close : Cursor → Cursor) :
    Except Refusal (α × Cursor) → Except Refusal (α × Cursor)
  | .ok a => .ok a
  | .error r => .error (r.settle close)

/-- A mismatch whose place is not settled yet. -/
def mismatch {α : Type} (m : Mismatch) (c : Cursor) : Except Refusal α :=
  .error { cause := .mismatch m, stop := c }

/-- A mismatch at the cursor. -/
def mismatchAt {α : Type} (m : Mismatch) (c : Cursor) : Except Refusal α :=
  .error { cause := .mismatch m, place := some c.place, stop := c }

/-! ### Closing brackets -/

/-- Past the end of a list if it comes next, else past white space and a comma. -/
def closeList (c : Cursor) : Cursor :=
  let c := c.skipSpace
  match c.peek with
  | some ']' => c.advance
  | some ',' => c.advance.skipSpace
  | _ => c

/-- Past the end of an object if it comes next, else past white space. -/
def closeObject (c : Cursor) : Cursor :=
  let c := c.skipSpace
  if c.peek = some '}' then c.advance else c

/-- Past the end of a list, which has to come next. -/
def endList (c : Cursor) : Except ReadError Cursor :=
  let c := c.skipSpace
  match c.peek with
  | none => c.fail .endInList
  | some ch =>
    if ch = ']' then .ok c.advance
    else if ch = ',' then
      let c := c.advance.skipSpace
      match c.peek with
      | none => c.fail .trailingCharacters
      | some d => c.failHere (if d = ']' then .trailingComma else .trailingCharacters)
    else c.failHere .trailingCharacters

/-! ### Plain values -/

/-- Refuses the value under the cursor. -/
def refuse {α : Type} (expected : String) (c : Cursor) : Except Refusal α :=
  match c.peek with
  | some '[' => mismatchAt (.of (.arr []) expected) c
  | some '{' => mismatchAt (.of (.obj []) expected) c
  | _ =>
    match readScalar (fuelFor c) c with
    | .ok (v, c) => mismatchAt (.of v expected) c
    | .error e => .error (.ofReadError c e)

/-- A value that is neither a list nor an object. -/
def readPlain {α : Type} (expected : String) (take : Json → Option α) (c : Cursor) :
    Except Refusal (α × Cursor) :=
  let c := c.skipSpace
  if c.peek = some '[' || c.peek = some '{' then refuse expected c
  else do
    let (v, after) ← lift c (readScalar (fuelFor c) c)
    match take v with
    | some a => pure (a, after)
    | none => mismatchAt (.of v expected) after

/-- A value of any shape. Lists and objects may stand `room` deep in it. -/
def readAny (room : Nat) (c : Cursor) : Except Refusal (Json × Cursor) :=
  lift c (readValue (fuelFor c) room c)

def skipAny (c : Cursor) : Except Refusal Cursor := lift c (skipValue (fuelFor c) c)

/-! ### Records and lists -/

/-- A field of a record: its name, whether it has to be there, and how it is read. -/
structure Field (ρ : Type) where
  name : String
  required : Bool
  read : Nat → Cursor → ρ → Except Refusal (ρ × Cursor)

/-- The member of an object whose name has just been read. -/
def readMember {ρ : Type} (fields : List (Field ρ)) (room : Nat) (seen : List String)
    (name : String) (c : Cursor) (r : ρ) : Except Refusal ((List String × ρ) × Cursor) :=
  match fields.find? fun f => f.name == name with
  | none => do
    let c ← lift c (readColon c)
    match skipAny c with
    | .ok c => pure ((seen, r), c)
    | .error e => .error (e.inside (.key name))
  | some f =>
    if seen.contains name then mismatch (.duplicate name) c
    else do
      let c ← lift c (readColon c)
      let (r, c) ← inside (.key name) (f.read room c r)
      pure ((name :: seen, r), c)

/-- The members of an object, and which fields were among them. The cursor ends at the closing
brace. -/
def readMembersInto {ρ : Type} (fields : List (Field ρ)) (room : Nat) :
    Nat → Bool → List String → Cursor → ρ → Except Refusal ((List String × ρ) × Cursor)
  | 0, _, _, c, _ => lift c (c.fail .endInObject)
  | fuel + 1, first, seen, c, r => do
    let (name?, c) ← lift c (Json.inside .unknown (readKey (fuelFor c) first c))
    match name? with
    | none => pure ((seen, r), c)
    | some name =>
      let ((seen, r), c) ← readMember fields room seen name c r
      readMembersInto fields room fuel false seen c r

/-- The values of fields in order, from number `index` on; `total` is how many fields there are. -/
def readItemsInto {ρ : Type} (label : String) (total room : Nat) :
    Nat → List (Field ρ) → Cursor → ρ → Except Refusal (ρ × Cursor)
  | _, [], c, r => .ok (r, c)
  | index, f :: fields, c, r => do
    let (more, c) ← lift c (moreElements (index == 0) c)
    if more then
      let (r, c) ← inside (.index index) (f.read room c r)
      readItemsInto label total room (index + 1) fields c r
    else if f.required then mismatch (.wrongLength index (recordOf label total)) c
    else readItemsInto label total room (index + 1) fields c r

/-- An object as a record. -/
def readObject {ρ : Type} (fields : List (Field ρ)) (empty : ρ) (room : Nat) (c : Cursor) :
    Except Refusal (ρ × Cursor) := do
  let room ← lift c (enter room c)
  settle closeObject do
    let ((seen, r), c) ← readMembersInto fields room (fuelFor c) true [] c.advance empty
    match fields.find? fun f => f.required && !seen.contains f.name with
    | some f => mismatch (.missing f.name) c
    | none => pure (r, c.advance)

/-- A list as a record. -/
def readTuple {ρ : Type} (label : String) (fields : List (Field ρ)) (empty : ρ) (room : Nat)
    (c : Cursor) : Except Refusal (ρ × Cursor) := do
  let room ← lift c (enter room c)
  settle closeList do
    let (r, c) ← readItemsInto label fields.length room 0 fields c.advance empty
    let c ← lift c (endList c)
    pure (r, c)

/-- A record, written as an object or as the list of its fields. -/
def readRecord {ρ : Type} (label : String) (fields : List (Field ρ)) (empty : ρ) (room : Nat)
    (c : Cursor) : Except Refusal (ρ × Cursor) :=
  let c := c.skipSpace
  match c.peek with
  | some '{' => readObject fields empty room c
  | some '[' => readTuple label fields empty room c
  | _ => refuse ("struct " ++ label) c

/-- The items of a list from number `index` on. The cursor ends at the closing bracket. -/
def readItems {α : Type} (item : Cursor → Except Refusal (α × Cursor)) :
    Nat → Nat → Cursor → Except Refusal (List α × Cursor)
  | 0, _, c => lift c (c.fail .endInList)
  | fuel + 1, index, c => do
    let (more, c) ← lift c (moreElements (index == 0) c)
    if more then
      let (a, c) ← inside (.index index) (item c)
      let (as, c) ← readItems item fuel (index + 1) c
      pure (a :: as, c)
    else pure ([], c)

def readList {α : Type} (item : Nat → Cursor → Except Refusal (α × Cursor)) (room : Nat)
    (c : Cursor) : Except Refusal (List α × Cursor) :=
  let c := c.skipSpace
  if c.peek = some '[' then do
    let room ← lift c (enter room c)
    settle closeList do
      let (as, c) ← readItems (item room) (fuelFor c) 0 c.advance
      pure (as, c.advance)
  else refuse "a sequence" c

/-! ### Configurations -/

/-- A switch. -/
def readToggle {ρ : Type} [Inhabited ρ] (names : List String) (set : Setter ρ) (room : Nat)
    (c : Cursor) : Except Refusal (Toggle ρ × Cursor) := do
  let (v, c) ← readAny room c
  match toggle? names set v with
  | some t => pure (t, c)
  | none => mismatch (.noVariant "Toggle") c

/-- A field that is read on its own and then put into the record. -/
def field {ρ α : Type} (name : String) (required : Bool)
    (read : Nat → Cursor → Except Refusal (α × Cursor)) (put : ρ → α → ρ) : Field ρ :=
  { name, required
    read := fun room c r => do
      let (a, c) ← read room c
      pure (put r a, c) }

def outputsFields : List (Field Outputs) := [
  field "models" false (readToggle modelFields setModelField) fun r t => { r with models := t },
  field "api" false (readToggle clientFields setClientField) fun r t => { r with client := t }]

def targetFields : List (Field Target) := [
  field "url" true (fun _ => readPlain "a string" asString?) fun r s => { r with url := s },
  field "basePath" true (fun _ => readPlain "path string" asString?) fun r s =>
    { r with basePath := s },
  field "clean" false (fun _ => readPlain "a boolean" asBool?) fun r b => { r with clean := b },
  field "template" false (readRecord "TemplateConfig" outputsFields {}) fun r o =>
    { r with outputs := o }]

def configFields : List (Field (List Target)) := [
  field "apiDocs" true (readList (readRecord "ApiDocConfig" targetFields {})) fun _ ts => ts]

/-- The targets that a text lists; `origin` says where it is from. -/
def ofText (origin text : String) : Except Failure (List Target) :=
  match readRecord "ApiDocsConfig" configFields [] depthLimit (Cursor.start text) with
  | .ok (targets, _) => .ok targets
  | .error r =>
    let place := match r.place with
      | some p => p.text
      | none => ""
    .error (.invalidConfig origin (pathText r.path) (r.cause.message ++ place))

end TypedClient.Config
