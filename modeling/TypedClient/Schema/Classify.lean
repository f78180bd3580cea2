import TypedClient.Failure
import TypedClient.Pointer

/-! Classifying schemas. Every schema object of a JSON value, from the innermost outwards, becomes
one node at the end of the arena, so that a node refers to older nodes only. Of several keywords in
one object the first of these decides: a reference, the keywords of an object, those of an array, an
enumeration or primitive type, a combination. What a failed call has made stays in the arena. -/

namespace TypedClient

/-- Steps that add nodes to an arena and may fail; the arena outlives a failure. -/
abbrev Building := ExceptT Failure (StateM Arena)

namespace Building

/-- Adds a node and returns its position. -/
def add (node : SchemaNode) : Building NodeId := do
  let arena ← getThe Arena
  set (arena.push node)
  pure arena.size

/-- What a pure step gives. -/
def ofExcept {α : Type} : Except Failure α → Building α
  | .ok a => pure a
  | .error e => throw e

end Building

namespace Schema

/-! ### Reading keywords -/

/-- The value under `key`, or under the same key with `x-` before it. -/
def hint? (fields : Assoc String Json) (key : String) : Option Json :=
  match Assoc.get? fields key with
  | some v => some v
  | none => Assoc.get? fields ("x-" ++ key)

def hintFlag? (fields : Assoc String Json) (key : String) : Option Bool :=
  (hint? fields key).bind Json.asBool?

/-- The items of the list under `key`. -/
def items? (fields : Assoc String Json) (key : String) : Option (List Json) :=
  (Assoc.get? fields key).bind Json.asArray?

def flag (fields : Assoc String Json) (key : String) : Bool :=
  ((Assoc.get? fields key).bind Json.asBool?).getD false

def text? (fields : Assoc String Json) (key : String) : Option String :=
  (Assoc.get? fields key).bind Json.asString?

/-- The declared type, and whether null is declared beside it. A list of types may name one type
that is not null. -/
def declaredType (fields : Assoc String Json) (location : String) :
    Except Failure (Option String × Bool) :=
  match Assoc.get? fields "type" with
  | some (.str name) => .ok (if name = "null" then (none, true) else (some name, false))
  | some (.arr names) =>
    let names := names.filterMap Json.asString?
    match names.filter (· != "null") with
    | [] => .ok (none, names.contains "null")
    | [name] => .ok (some name, names.contains "null")
    | _ => .error (.unsupportedSchema location .severalTypes)
  | _ => .ok (none, false)

/-- The primitive type of a literal. -/
def literalPrimitive? : Json → Option Primitive
  | .str _ => some .string
  | .num (.int _) => some .integer
  | .num (.real _) => some .number
  | .bool _ => some .boolean
  | _ => none

/-- The literals of an enumeration; null is none of them. -/
def literals (fields : Assoc String Json) : List Json :=
  ((items? fields "enum").getD []).filter (!·.isNull)

/-- An enumeration or a primitive type, where the declared type or the first literal tells one. A
file is a binary string. -/
def plainKind? (fields : Assoc String Json) (declared : Option String) : Option SchemaKind :=
  let literals := literals fields
  let primitive := match declared with
    | some "file" => some Primitive.string
    | some name => Primitive.ofName? name
    | none => literals.head?.bind literalPrimitive?
  primitive.map fun p =>
    if !literals.isEmpty then .enum p literals
    else .primitive p (if declared = some "file" then some "binary" else text? fields "format")

/-! ### Named constants -/

/-- The least and the greatest integer of 64 bits with a sign. -/
def leastInteger : Int := -9223372036854775808

def greatestInteger : Int := 9223372036854775807

def readEnumMember (v : Json) : Except Json.Mismatch EnumMember := do
  let set := fun (r : Option String × Option Int) (field : String) (v : Json) =>
    if field = "key" then do pure (some (← Json.readText v), r.2)
    else if field = "value" then do
      pure (r.1, some (← Json.readInteger leastInteger greatestInteger "i64" v))
    else pure r
  let (key, value) ← Json.readRecord "EnumMember" ["key", "value"] false set (none, none) v
  pure { key := ← Json.require "key" key, value := ← Json.require "value" value }

def readEnumMembers (v : Json) : Except Json.Mismatch (List EnumMember) :=
  match v with
  | .arr items => items.mapM readEnumMember
  | v => .error (.of v "a sequence")

/-- The named constants that a schema lists. -/
def namedConstants (fields : Assoc String Json) (location : String) :
    Except Failure (Option (List EnumMember)) :=
  match hint? fields "enumValues" with
  | none => .ok none
  | some v =>
    match readEnumMembers v with
    | .ok members => .ok (some members)
    | .error why => .error (.unsupportedSchema location (.enumValues why))

/-! ### Parts are smaller than the whole -/

theorem size_lt_of_hint? {fields : Assoc String Json} {key : String} {v : Json}
    (h : hint? fields key = some v) : v.size < Json.fieldSizes fields := by
  unfold hint? at h
  split at h
  · next hk => cases h; exact Json.size_lt_of_get? hk
  · exact Json.size_lt_of_get? h

theorem sizes_lt_of_hint? {fields : Assoc String Json} {key : String} {vs : List Json}
    (h : hint? fields key = some (.arr vs)) : Json.sizes vs < Json.fieldSizes fields := by
  have := size_lt_of_hint? h
  simp only [Json.size] at this
  omega

theorem sizes_lt_of_items? {fields : Assoc String Json} {key : String} {vs : List Json}
    (h : items? fields key = some vs) : Json.sizes vs < Json.fieldSizes fields := by
  unfold items? at h
  cases hk : Assoc.get? fields key with
  | none => simp [hk] at h
  | some v =>
    have := Json.size_lt_of_get? hk
    cases v <;> simp [hk, Json.asArray?] at h
    subst h
    simp only [Json.size] at this
    omega

theorem fieldSizes_lt_of_get? {fields members : Assoc String Json} {key : String}
    (h : Assoc.get? fields key = some (.obj members)) :
    Json.fieldSizes members < Json.fieldSizes fields := by
  have := Json.size_lt_of_get? h
  simp only [Json.size] at this
  omega

/-! ### Classifying -/

/-- Whether the keywords are those of an object. -/
def isObject (fields : Assoc String Json) (declared : Option String) : Bool :=
  declared = some "object" || (declared.isNone &&
    (Assoc.has fields "properties" || Assoc.has fields "additionalProperties"))

/-- Whether the keywords are those of an array. -/
def isArray (fields : Assoc String Json) (declared : Option String) : Bool :=
  declared = some "array" || (declared.isNone && Assoc.has fields "items")

/-- The first combination with members, in the order in which they are looked for. -/
def combination? (fields : Assoc String Json) : Option (Combination × List Json) :=
  [Combination.allOf, .oneOf, .anyOf].findSome? fun how =>
    match items? fields how.name with
    | none | some [] => none
    | some members => some (how, members)

theorem sizes_lt_of_combination? {fields : Assoc String Json} {how : Combination}
    {members : List Json} (h : combination? fields = some (how, members)) :
    Json.sizes members < Json.fieldSizes fields := by
  unfold combination? at h
  obtain ⟨how', -, h⟩ := List.exists_of_findSome?_eq_some h
  split at h
  · simp at h
  · simp at h
  · next members' _ hi => cases h; exact sizes_lt_of_items? hi

mutual

/-- Adds the node of a schema, after the nodes of all schemas inside it. -/
def classify (v : Json) (location : String) : Building NodeId :=
  match v with
  | .obj fields => do
    let (declared, nullable) ← Building.ofExcept (declaredType fields location)
    let hints ← classifyHints fields location
    let kind ← classifyKind fields declared location
    Building.add {
      kind
      description := text? fields "description"
      nullable := nullable || flag fields "nullable" || flag fields "x-nullable"
      hints }
  | _ => Building.add {}
termination_by 3 * v.size
decreasing_by all_goals simp only [Json.size]; omega

def classifyHints (fields : Assoc String Json) (location : String) : Building TypeHints := do
  let definition ← (match _ : hint? fields "genericTypeDefinition" with
    | some v => some <$> classify v (location ++ ".genericTypeDefinition")
    | none => pure none)
  let arguments ← (match _ : hint? fields "genericArguments" with
    | some (.arr vs) => classifyAll vs (location ++ ".genericArguments") 0
    | _ => pure [])
  let enumValues ← Building.ofExcept (namedConstants fields location)
  pure {
    isInterface := hintFlag? fields "isInterface"
    isGenericType := (hintFlag? fields "isGenericType").getD false
    isGenericTypeDefinition := (hintFlag? fields "isGenericTypeDefinition").getD false
    isGenericParameter := (hintFlag? fields "isGenericParameter").getD false
    genericTypeDefinition := definition
    genericArguments := arguments
    enumValues }
termination_by 3 * Json.fieldSizes fields + 1
decreasing_by
  · have := size_lt_of_hint? ‹_›; omega
  · have := sizes_lt_of_hint? ‹_›; omega

def classifyKind (fields : Assoc String Json) (declared : Option String) (location : String) :
    Building SchemaKind :=
  match text? fields "$ref" with
  | some reference => pure (.reference (Pointer.componentName reference))
  | none =>
    if isObject fields declared then .object <$> classifyObject fields location
    else if isArray fields declared then
      match _ : Assoc.get? fields "items" with
      | some v => do pure (.array (some (← classify v (location ++ "[]"))))
      | none => pure (.array none)
    else match plainKind? fields declared with
      | some kind => pure kind
      | none =>
        match _ : combination? fields with
        | some (how, members) => do
          pure (.combination how (← classifyAll members (location ++ "." ++ how.name) 0))
        | none => pure .empty
termination_by 3 * Json.fieldSizes fields + 2
decreasing_by
  · omega
  · have := Json.size_lt_of_get? ‹_›; omega
  · have := sizes_lt_of_combination? ‹_›; omega

def classifyObject (fields : Assoc String Json) (location : String) : Building ObjectShape := do
  let properties ← (match _ : Assoc.get? fields "properties" with
    | some (.obj members) => classifyMembers members location
    | _ => pure [])
  let allOf ← (match _ : items? fields "allOf" with
    | some members => classifyAll members (location ++ ".allOf") 0
    | none => pure [])
  let additional ← (match _ : Assoc.get? fields "additionalProperties" with
    | none | some .null | some (.bool false) => pure none
    | some (.bool true) => pure (some Additional.any)
    | some v => do pure (some (.schema (← classify v (location ++ ".additionalProperties")))))
  pure {
    properties
    required := ((items? fields "required").getD []).filterMap Json.asString?
    allOf
    additional }
termination_by 3 * Json.fieldSizes fields + 1
decreasing_by
  · have := fieldSizes_lt_of_get? ‹_›; omega
  · have := sizes_lt_of_items? ‹_›; omega
  · have := Json.size_lt_of_get? ‹_›; omega

/-- The properties of an object, in order. -/
def classifyMembers (members : List (String × Json)) (location : String) :
    Building (Assoc String NodeId) :=
  match members with
  | [] => pure []
  | (name, v) :: rest => do
    let id ← classify v (location ++ "." ++ name)
    pure ((name, id) :: (← classifyMembers rest location))
termination_by 3 * Json.fieldSizes members
decreasing_by
  · simp only [Json.fieldSizes]; omega
  · simp only [Json.fieldSizes]; omega

/-- A list of schemas, of which the first one counts as number `index`. -/
def classifyAll (vs : List Json) (location : String) (index : Nat) : Building (List NodeId) :=
  match vs with
  | [] => pure []
  | v :: rest => do
    let id ← classify v (location ++ "[" ++ toString index ++ "]")
    pure (id :: (← classifyAll rest location (index + 1)))
termination_by 3 * Json.sizes vs
decreasing_by
  · simp only [Json.sizes]; omega
  · simp only [Json.sizes]; omega

end

end Schema

end TypedClient
