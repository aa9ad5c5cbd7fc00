import ApiDocs.Text.Cut

/-!
# Paths

A path is a text: names with slashes between them. One that begins with a slash starts at the
root of the disk, and any other at the working directory.
-/

namespace ApiDocs.Path

/-- The path starts at the root. -/
def isAbsolute (path : String) : Bool :=
  path.toList.head? = some '/'

/-- The path says that it leads to a directory. -/
def endsInSlash (path : String) : Bool :=
  path.toList.getLast? = some '/'

/-- `path`, followed from `base` on. -/
def join (base path : String) : String :=
  if isAbsolute path then path
  else if base = "" ∨ endsInSlash base then base ++ path
  else base ++ "/" ++ path

/-- The names of a path from the first to the last, without empty ones. -/
def names (path : String) : List String :=
  ((Text.pieces (· = '/') path.toList).filter (! ·.isEmpty)).map String.ofList

/-- The path to the directory that holds the last name of a path; it is empty if that is where the
path starts. A name that stays in its directory does not count as the last one. -/
def parent (path : String) : String :=
  let idle (name : List Char) : Bool := name.isEmpty || name = ['.']
  let behind := (Text.pieces (· = '/') path.toList).reverse.dropWhile idle
  "/".intercalate ((behind.tail.dropWhile idle).reverse.map String.ofList)

/-- The name stays in a directory, or leads out of it. -/
def isStep (name : String) : Bool :=
  name = "." || name = ".."

/-- The names of a path that must lead to a directory before something is made at its end: all but
the last one, which is new, unless that one is a step between directories. -/
def directories (path : String) : List String :=
  match (names path).getLast? with
  | some last => if isStep last then names path else (names path).dropLast
  | none => []

end ApiDocs.Path
