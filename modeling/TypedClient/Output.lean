import TypedClient.Path

/-! Where generated files go. Models and clients have a directory each below the base path, unless
another one is asked for or a function says where a file goes. -/

namespace TypedClient

/-- The kinds of generated files, each with its own directory. -/
inductive OutputKind where
  | models | apis
  deriving DecidableEq, Repr, Inhabited

def OutputKind.name : OutputKind → String
  | .models => "models" | .apis => "apis"

/-- Where files go instead of the usual directory. -/
inductive OutputPlace where
  /-- To a directory; a relative one lies below the base path. -/
  | directory (path : String)
  /-- To what a function makes of the usual path. -/
  | custom (place : String → String)
  deriving Inhabited

namespace Output

def defaultExtension : String := ".ts"

/-- An extension with its dot; an empty one is the usual one. -/
def extension (asked : Option String) : String :=
  match asked.map fun e => Text.trim e with
  | none | some "" => defaultExtension
  | some e => if Text.startsWith e "." then e else "." ++ e

/-- The path of a file before its extension. -/
def bare (base : String) (place : Option OutputPlace) (name : String) (kind : OutputKind) :
    String :=
  let usual := Path.join (Path.join base kind.name) name
  match place with
  | none => usual
  | some (.directory dir) => Path.join (Path.join base dir) name
  | some (.custom f) => f usual

/-- The path of a file. The extension is put to a path that has none and, unless a function has said
where the file goes, whenever `force` says so. -/
def path (base : String) (place : Option OutputPlace) (name : String) (kind : OutputKind)
    (extension : String) (force : Bool) : String :=
  let bare := bare base place name kind
  let force := match place with
    | some (.custom _) => false
    | _ => force
  if force || (Path.extension? bare).isNone then bare ++ extension else bare

end Output

end TypedClient
