import TypedClient.Text.Basic

/-! Paths of files, written with slashes. A path is absolute when it begins with one. Repeated
slashes, slashes at the end and pieces that are a single dot say nothing, but for a dot that a path
begins with; the text of a path is kept as it is written. -/

namespace TypedClient.Path

def isAbsolute (path : String) : Bool := path.toList.head? = some '/'

/-- A path taken from `base`; an absolute one stays what it is. -/
def join (base path : String) : String :=
  if isAbsolute path then path
  else if base = "" || base.toList.getLast? = some '/' then base ++ path
  else base ++ "/" ++ path

/-! ### Pieces -/

/-- Drops slashes and single dots from the end of a reversed path. -/
def trimReversed : List Char → List Char
  | '/' :: cs => trimReversed cs
  | '.' :: '/' :: cs => trimReversed ('/' :: cs)
  | ['.'] => []
  | cs => cs

/-- A path without slashes and single dots at its end. -/
def trimEnd (cs : List Char) : List Char := (trimReversed cs.reverse).reverse

/-- What a path begins with, the root or a single dot, and what follows. -/
def splitStart : List Char → List Char × List Char
  | '/' :: cs => (['/'], cs)
  | ['.'] => (['.'], [])
  | '.' :: '/' :: cs => (['.'], '/' :: cs)
  | cs => ([], cs)

/-- The last piece of a path that does not end in a slash, and what stands before it and before the
slash between them. -/
def splitLast (cs : List Char) : List Char × List Char :=
  let reversed := cs.reverse
  (((reversed.dropWhile (· != '/')).drop 1).reverse, (reversed.takeWhile (· != '/')).reverse)

/-- The directory that a path stands in: the path without its last piece. The root and the empty
path have none. -/
def parent? (path : String) : Option String :=
  let (start, body) := splitStart path.toList
  match trimEnd body with
  | [] => if start = ['.'] then some "" else none
  | body => some (String.ofList (start ++ trimEnd (splitLast body).1))

/-- The name at the end of a path, unless it is two dots. -/
def fileName? (path : String) : Option (List Char) :=
  match trimEnd (splitStart path.toList).2 with
  | [] => none
  | body =>
    let name := (splitLast body).2
    if name = ['.', '.'] then none else some name

/-! ### Extensions -/

/-- A name cut at its last dot. A dot at the beginning does not count. -/
def splitDot (name : List Char) : List Char × Option (List Char) :=
  let reversed := name.reverse
  match reversed.dropWhile (· != '.') with
  | [] | ['.'] => (name, none)
  | _ :: before => (before.reverse, some (reversed.takeWhile (· != '.')).reverse)

/-- What follows the last dot of a path's name. -/
def extension? (path : String) : Option String :=
  (fileName? path).bind fun name => (splitDot name).2.map String.ofList

/-- A path's name without its extension; empty when there is no name. -/
def stem (path : String) : String :=
  match fileName? path with
  | some name => String.ofList (splitDot name).1
  | none => ""

/-- A path with another name at its end. -/
def withFileName (path name : String) : String :=
  match fileName? path with
  | some _ => join ((parent? path).getD "") name
  | none => join path name

end TypedClient.Path
