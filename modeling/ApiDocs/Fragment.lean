import ApiDocs.Metadata.Basic
import ApiDocs.Notice

/-!
# Fragments of external documentation

A fragment documents a symbol. A fragment source gives the fragment for a symbol and says which of
its nodes are worth taking over. The source used by a run is a directory with a file for each
symbol, in a directory for each type.
-/

namespace ApiDocs

open Xml

/-- Where fragments come from. -/
structure FragmentSource where
  /-- The fragment for a symbol of a type, and what there is to tell about looking for it. -/
  fragment : ApiType → String → List Notice × Option Element
  /-- The nodes of a fragment that are taken over. -/
  content : Element → List Node := (·.children)

/-- A directory of fragments. -/
structure FragmentLibrary where
  root : String
  deriving DecidableEq, Repr

namespace FragmentLibrary

/-- The name is one name in a path, and leads down. -/
def isPlainName (name : String) : Bool :=
  name ≠ "" && !name.toList.contains '/' && !name.toList.contains '\\' && name ≠ ".."

/-- The file for a symbol of a type. -/
def path? (l : FragmentLibrary) (t : ApiType) (symbol : String) : Option String :=
  if isPlainName t.name && isPlainName symbol then
    some (Path.join (Path.join l.root t.name) (symbol ++ ".xml"))
  else none

/-- Reads the fragment in a file. -/
def read (d : Disk) (path : String) : Except Failure Element :=
  match d.readText path with
  | .error cause => .error (.disk (.readFragment path) cause)
  | .ok content =>
    match Document.parse (dropByteOrderMark content) with
    | .error cause => .error (.xml path cause)
    | .ok document => .ok document.root

/-- Loads the fragment for a symbol of a type, if there is one. One that is there but cannot be
read is a failure. -/
def load (l : FragmentLibrary) (d : Disk) (t : ApiType) (symbol : String) :
    Except Failure (Option Element) :=
  match l.path? t symbol with
  | none => .ok none
  | some path => if d.isFile path then (read d path).map some else .ok none

/-- The fragment for a symbol of a type. A fragment that cannot be read is told in a notice. -/
def fragment (l : FragmentLibrary) (d : Disk) (t : ApiType) (symbol : String) :
    List Notice × Option Element :=
  match l.load d t symbol with
  | .ok found => ([], found)
  | .error cause => ([.fragmentRefused t.name symbol cause], none)

/-- The element is a section, by its name or by one of its classes. -/
def isSection (e : Element) : Bool :=
  e.name = "section" || (e.attribute? "class").any fun classes =>
    (Text.words classes).contains "section"

/-- The nodes of the first section in document order, or of the whole fragment without one. -/
def content (e : Element) : List Node :=
  ((e.find? isSection).getD e).children

/-- The library on this disk as a source of fragments. -/
def source (l : FragmentLibrary) (d : Disk) : FragmentSource :=
  { fragment := l.fragment d, content }

end FragmentLibrary

end ApiDocs
