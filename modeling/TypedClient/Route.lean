import TypedClient.Naming

/-! Route segments and action names. The pieces of a path become PascalCase segments; a piece that
is a parameter, `{petId}`, is folded into the segment before it as `ByPetId`. -/

namespace TypedClient.Route

/-- Whether a character can stand in the name of a parameter. -/
def isParameterChar (c : Char) : Bool := c != '{' && c != '}' && c != '/'

/-- The parameter at the head of a text that follows an opening brace, and what comes after its
closing brace. -/
def parameter? (cs : List Char) : Option (List Char × List Char) :=
  match cs.takeWhile isParameterChar, cs.dropWhile isParameterChar with
  | name@(_ :: _), '}' :: rest => some (name, rest)
  | _, _ => none

/-- The name of a piece that is nothing but a parameter. -/
def wholeParameter? (piece : List Char) : Option (List Char) :=
  match piece with
  | '{' :: cs =>
    match parameter? cs with
    | some (name, []) => some name
    | _ => none
  | _ => none

theorem length_parameter? {cs name rest : List Char} (h : parameter? cs = some (name, rest)) :
    rest.length < cs.length := by
  unfold parameter? at h
  split at h
  · next hd =>
    simp only [Option.some.injEq, Prod.mk.injEq] at h
    obtain ⟨-, rfl⟩ := h
    have hl := congrArg List.length
      (List.takeWhile_append_dropWhile (p := isParameterChar) (l := cs))
    rw [List.length_append, hd] at hl
    simp at hl
    omega
  · simp at h

variable [Text.Transliteration]

/-- Writes every parameter inside a piece in PascalCase, the first one as a word of its own after
`By`, and tells whether there was one. -/
def inlineParameters (found : Bool) (cs : List Char) : List Char × Bool :=
  match cs with
  | [] => ([], found)
  | c :: cs =>
    if c = '{' then
      match _ : parameter? cs with
      | some (name, rest) =>
        let written := Naming.pascalChars name
        let (text, _) := inlineParameters true rest
        ((if found then written else "_By".toList ++ written) ++ text, true)
      | none =>
        let (text, found) := inlineParameters found cs
        (c :: text, found)
    else
      let (text, found) := inlineParameters found cs
      (c :: text, found)
termination_by cs.length
decreasing_by
  · have := length_parameter? ‹_›; simp; omega
  · simp
  · simp

/-- A segment under construction: its name, and whether a parameter is part of it. -/
structure Segment where
  name : List Char
  hasParameter : Bool

/-- Folds a parameter into a segment. -/
def Segment.by_ (s : Segment) (name : List Char) : Segment :=
  ⟨s.name ++ (if s.hasParameter then [] else "By".toList) ++ Naming.pascalChars name, true⟩

/-- Adds one piece of a path to the segments so far, of which the last one comes first. A parameter
without a segment before it is dropped, and so is a piece without letters and digits. -/
def addPiece (segments : List Segment) (piece : List Char) : List Segment :=
  match wholeParameter? piece, segments with
  | some name, s :: before => s.by_ name :: before
  | some _, [] => []
  | none, _ =>
    let (text, found) := inlineParameters false piece
    match Naming.pascalChars text with
    | [] => segments
    | name => ⟨name, found⟩ :: segments

/-- The pieces of a path that are not blank. -/
def pathPieces (cs : List Char) : List (List Char) :=
  ((Text.pieces (fun c => c = '/' || c = '\\') cs).map Text.trimChars).filter (!·.isEmpty)

def segmentsOf (cs : List Char) : List (List Char) :=
  ((pathPieces cs).foldl addPiece []).reverse.map Segment.name

/-- The PascalCase segments of a path. -/
def segments (path : String) : List String := (segmentsOf path.toList).map String.ofList

/-! ### Action names -/

/-- Whether a text ends in `async`, in whatever letters. -/
def endsInAsync (s : String) : Bool := Text.endsWith (Text.lower s) "async"

/-- The name of the function for an operation: its last segment, its method unless the segment
begins or ends with it, and `Async` unless the name ends so. Without a segment the method alone
names it. -/
def actionName (segment : Option String) (method : String) : String :=
  let method := Text.lower method
  let segment := match segment with
    | none | some "" => method
    | some s => s
  let low := Text.lower segment
  let base := Naming.pascalCase segment
  let name :=
    if Text.startsWith low method || Text.endsWith low method then base
    else base ++ "_" ++ Naming.pascalCase method
  if endsInAsync name then name else name ++ "Async"

end TypedClient.Route
