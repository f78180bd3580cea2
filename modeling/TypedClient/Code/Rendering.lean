import TypedClient.Failure

/-! Code from templates of the user, and several sources in one file. What a template makes of what
is rendered is not decided here. In one file a line that imports stands once, where it first
comes. -/

namespace TypedClient.Code

/-- A way to render templates. -/
class Templates where
  /-- The text of a template for what is called `data` in it. -/
  render : String → Json → Except Failure String

/-- Whether a line imports something. -/
def isImport (line : String) : Bool := Text.startsWith (Text.trim line) "import "

/-- The lines that are kept after the imports of `seen`, which hold no blanks around them. -/
def mergeLines (seen : List String) : List String → List String
  | [] => []
  | line :: rest =>
    if isImport line then
      if seen.contains (Text.trim line) then mergeLines seen rest
      else line :: mergeLines (Text.trim line :: seen) rest
    else line :: mergeLines seen rest

/-- One source after the other, without repeated imports. -/
def merge (sources : List String) : String :=
  String.intercalate "\n" (mergeLines [] (sources.flatMap Text.lines)) ++ "\n"

end TypedClient.Code
