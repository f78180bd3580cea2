import TypedClient.Assoc
import TypedClient.Host.Basic
import TypedClient.Terminal.Basic

/-! A file tree in memory. What a path leads to is found piece by piece: every piece but the last
one has to lead to a directory, and two dots lead back. A tree is a map from such ways, without
dots, to what stands there. -/

namespace TypedClient

/-- The pieces of a path from the root, without dots. -/
abbrev Way := List String

inductive FileEntry where
  | directory
  | file (text : String)
  deriving DecidableEq, Repr

/-- What stands where. The root is always a directory. -/
structure FileTree where
  entries : Assoc Way FileEntry := []
  deriving DecidableEq, Repr, Inhabited

namespace FileTree

def entry? (t : FileTree) (way : Way) : Option FileEntry :=
  if way = [] then some .directory else Assoc.get? t.entries way

def set (t : FileTree) (way : Way) (e : FileEntry) : FileTree :=
  { t with entries := Assoc.put t.entries way e }

/-- Follows pieces from a directory. -/
def follow (t : FileTree) (way : Way) : List String → Except FileError Way
  | [] => .ok way
  | piece :: rest =>
    match t.entry? way with
    | none => .error .missing
    | some (.file _) => .error .notDirectory
    | some .directory =>
      if piece = "" || piece = "." then follow t way rest
      else if piece = ".." then follow t way.dropLast rest
      else follow t (way ++ [piece]) rest

def piecesOf (path : String) : List String :=
  (Text.pieces (· == '/') path.toList).map String.ofList

/-- Where a path leads; only what is last may be missing there. -/
def locate (t : FileTree) (path : String) : Except FileError Way :=
  if path = "" then .error .missing else follow t [] (piecesOf path)

/-- A path without the slashes at its end. -/
def dropSlashes (path : String) : String :=
  match (path.toList.reverse.dropWhile (· == '/')).reverse with
  | [] => if path = "" then "" else "/"
  | cs => String.ofList cs

/-- The directory that a path ends in, and the last piece of the path, which names something in
it. -/
def locateEnd (t : FileTree) (path : String) : Except FileError (Way × String) := do
  let pieces := piecesOf (dropSlashes path)
  let way ← follow t [] (pieces.dropLast ++ ["."])
  pure (way, pieces.getLast?.getD "")

def read (t : FileTree) (path : String) : Except FileError String := do
  match t.entry? (← t.locate path) with
  | none => throw .missing
  | some .directory => throw .isDirectory
  | some (.file text) => pure text

/-- Writes a file. A path with a slash at its end names no file, whatever is there. -/
def write (t : FileTree) (path text : String) : Except FileError FileTree := do
  if Text.endsWith path "/" then
    let _ ← t.locateEnd path
    throw .isDirectory
  let way ← t.locate path
  match t.entry? way with
  | some .directory => throw .isDirectory
  | _ => pure (t.set way (.file text))

/-- Whether something is at a path; a way through what is missing leads nowhere. -/
def isThere (t : FileTree) (path : String) : Except FileError Bool :=
  match t.locate path with
  | .ok way => .ok (t.entry? way).isSome
  | .error .missing => .ok false
  | .error e => .error e

def isDirectory (t : FileTree) (path : String) : Bool :=
  match t.locate path with
  | .ok way => t.entry? way == some .directory
  | .error _ => false

def makeDirectory (t : FileTree) (path : String) : Except FileError FileTree := do
  let way ← t.locate (dropSlashes path)
  match t.entry? way with
  | some _ => throw .alreadyThere
  | none => pure (t.set way .directory)

/-- Removes an empty directory, which cannot be done under the name of a single dot or of two. -/
def removeDirectory (t : FileTree) (path : String) : Except FileError FileTree := do
  let (parent, name) ← t.locateEnd path
  if name = "" then throw .busy
  if name = "." then throw .invalidArgument
  if name = ".." then throw .notEmpty
  let way := parent ++ [name]
  match t.entry? way with
  | none => throw .missing
  | some (.file _) => throw .notDirectory
  | some .directory =>
    if t.entries.any fun p => way.isPrefixOf p.1 && p.1 != way then throw .notEmpty
    pure { entries := t.entries.filter fun p => p.1 != way }

/-- A tree without what is below a way. -/
def clear (t : FileTree) (way : Way) : FileTree :=
  { entries := t.entries.filter fun p => !(way.isPrefixOf p.1) || p.1 == way }

/-- Removes what is below a directory and then the directory. That is looked for anew: if the path
led through what is gone, the directory is not found and stays. -/
def removeTree (t : FileTree) (path : String) : Except FileError Unit × FileTree :=
  match t.locate path with
  | .error e => (.error e, t)
  | .ok way =>
    match t.entry? way with
    | none => (.error .missing, t)
    | some (.file _) => (.error .notDirectory, t)
    | some .directory =>
      let emptied := t.clear way
      match emptied.removeDirectory path with
      | .ok left => (.ok (), left)
      | .error .missing => (.ok (), emptied)
      | .error e => (.error e, emptied)

end FileTree

/-! ### A machine with such a tree -/

/-- A machine: its files, where relative paths start, its formatter, its clock, which stands still,
and the lines written on it, the latest first. Nothing can be fetched. -/
structure Machine where
  tree : FileTree := {}
  directory : String := "/"
  formatter : String → String → FormatterRun := fun _ _ => .notStarted ""
  time : String := "00:00:00"
  printed : List (Channel × String) := []
  deriving Inhabited

namespace Machine

/-- A path from the root. -/
def absolute (w : Machine) (path : String) : String :=
  if path = "" then "" else Path.join w.directory path

def look {α : Type} (path : String) (f : FileTree → String → α) : StateM Machine α := do
  let w ← get
  pure (f w.tree (w.absolute path))

def change (path : String) (f : FileTree → String → Except FileError FileTree) :
    StateM Machine (Except FileError Unit) := do
  let w ← get
  match f w.tree (w.absolute path) with
  | .ok tree => set { w with tree }; pure (.ok ())
  | .error e => pure (.error e)

instance : Host (StateM Machine) where
  readText path := look path FileTree.read
  writeText path text := change path fun t p => t.write p text
  isThere path := look path FileTree.isThere
  isDirectory path := look path FileTree.isDirectory
  makeDirectory path := change path FileTree.makeDirectory
  removeTree path := do
    let w ← get
    let (result, tree) := w.tree.removeTree (w.absolute path)
    set { w with tree }
    pure result
  runFormatter file code := do pure ((← get).formatter file code)
  fetchText _ := pure (.error "builder error")

instance : Console (StateM Machine) where
  print channel line := modify fun w => { w with printed := (channel, line) :: w.printed }
  clock := do pure (← get).time

/-- What has been written on a channel. -/
def text (w : Machine) (channel : Channel) : String :=
  String.join ((w.printed.reverse.filter fun p => p.1 = channel).map fun p => p.2 ++ "\n")

end Machine

end TypedClient
