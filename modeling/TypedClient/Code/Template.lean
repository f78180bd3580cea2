import TypedClient.Code.Rendering

/-! Templates of the user. A template is text with outputs, `{{ data.name }}`, of values found in
what is rendered; an output may ask for the length of a list or a text. Nothing is escaped, and one
line feed at the end of a template is left out. -/

namespace TypedClient.Code

/-- One part of a template. -/
inductive TemplatePart where
  | text (cs : List Char)
  | output (path : List String) (length : Bool)
  deriving DecidableEq, Repr

namespace Template

def stripEnd (cs : List Char) : List Char :=
  if cs.getLast? = some '\n' then cs.dropLast else cs

/-- What stands before two closing braces, and what after them. -/
def closing? : List Char → Option (List Char × List Char)
  | [] => none
  | '}' :: '}' :: cs => some ([], cs)
  | c :: cs => (closing? cs).map fun (before, after) => (c :: before, after)

theorem length_closing? {cs before after : List Char} (h : closing? cs = some (before, after)) :
    after.length < cs.length := by
  fun_induction closing? cs generalizing before with
  | case1 => simp at h
  | case2 cs => cases h; simp only [List.length_cons]; omega
  | case3 c cs _ ih =>
    obtain ⟨p, hp, he⟩ := Option.map_eq_some_iff.1 h
    cases he
    have := ih hp
    simp
    omega

/-- An output: a path of names, or the length of what it leads to. -/
def outputOf (cs : List Char) : TemplatePart :=
  let path (cs : List Char) :=
    (Text.pieces (· == '.') (Text.trimChars cs)).map String.ofList
  match Text.pieces (· == '|') cs with
  | [value, filter] =>
    .output (path value) (String.ofList (Text.trimChars filter) == "length")
  | _ => .output (path cs) false

/-- Puts a character before the text that a list of parts begins with. -/
def addChar (c : Char) : List TemplatePart → List TemplatePart
  | .text cs :: parts => .text (c :: cs) :: parts
  | parts => .text [c] :: parts

/-- The parts of a template. -/
def partsOf (cs : List Char) : Except TemplateFault (List TemplatePart) :=
  match cs with
  | [] => .ok []
  | '{' :: '%' :: _ => .error .blockEnd
  | '{' :: '{' :: cs =>
    match _ : closing? cs with
    | none => .error .unclosedOutput
    | some (inside, rest) => (partsOf rest).map (outputOf inside :: ·)
  | c :: cs => (partsOf cs).map (addChar c)
termination_by cs.length
decreasing_by
  · have := length_closing? ‹_›; simp; omega
  · simp

/-! ### Rendering -/

/-- The value at the end of a path. -/
def valueAt? (v : Json) (path : List String) : Option Json := path.foldlM Json.get? v

/-- A value as it is printed; what is not there prints nothing. -/
def print : Option Json → String
  | none => ""
  | some .null => "none"
  | some (.str s) => s
  | some v => v.text

/-- What a value is called where its length is asked for in vain. -/
def kindName : Option Json → String
  | none => "undefined"
  | some .null => "none"
  | some (.bool _) => "bool"
  | some (.num _) => "number"
  | some (.str _) => "string"
  | some (.arr _) => "sequence"
  | some (.obj _) => "map"

def lengthOf (v : Option Json) : Except TemplateFault Nat :=
  match v with
  | some (.arr items) => .ok items.length
  | some (.obj fields) => .ok fields.length
  | some (.str s) => .ok s.toList.length
  | v => .error (.noLength (kindName v))

def renderPart (context : Json) : TemplatePart → Except TemplateFault String
  | .text cs => .ok (String.ofList cs)
  | .output path false => .ok (print (valueAt? context path))
  | .output path true => (lengthOf (valueAt? context path)).map toString

def render (template : String) (data : Json) : Except Failure String :=
  let parts := do
    let parts ← partsOf (stripEnd template.toList)
    parts.mapM (renderPart (.obj [("data", data)]))
  match parts with
  | .ok texts => .ok (String.join texts)
  | .error fault => .error (.template fault)

end Template

instance : Templates := ⟨Template.render⟩

end TypedClient.Code
