import Std.Data.ExtTreeMap
import ApiDocs.Disk.Path

/-!
# Disks

A disk holds files and directories, has no links, and has a working directory. Its operations
are those of a Unix system: a name is looked up in a directory only, a file is made only where
its directory exists, and each failure has its cause. What can be read need not be writable: the
system may refuse to open a file to write to it. If it does not, all that is written comes into the
file. An operation that fails leaves the disk as it was; making a directory with its parents is the
exception, for it keeps the parents.
-/

namespace ApiDocs

/-- A place on a disk: the names that lead to it, the innermost first. The root has none. -/
abbrev Location := List String

namespace Disk

/-- What a place holds. -/
inductive Entry where
  | directory
  | file (content : ByteArray)
  deriving BEq

/-- Why the system refuses to open a file to write to it, or to make a file or a directory. -/
inductive Refusal where
  | permissionDenied
  | notPermitted
  | readOnly
  | noSpace
  deriving DecidableEq, Repr

def Refusal.message : Refusal → String
  | .permissionDenied => "Permission denied (os error 13)"
  | .notPermitted => "Operation not permitted (os error 1)"
  | .readOnly => "Read-only file system (os error 30)"
  | .noSpace => "No space left on device (os error 28)"

/-- Why an operation fails. -/
inductive Error where
  | notFound
  | notDirectory
  | isDirectory
  | alreadyExists
  | nameTooLong
  | nullInName
  | notText
  | refused (why : Refusal)
  deriving DecidableEq, Repr

def Error.message : Error → String
  | .notFound => "No such file or directory (os error 2)"
  | .notDirectory => "Not a directory (os error 20)"
  | .isDirectory => "Is a directory (os error 21)"
  | .alreadyExists => "File exists (os error 17)"
  | .nameTooLong => "File name too long (os error 36)"
  | .nullInName => "file name contained an unexpected NUL byte"
  | .notText => "stream did not contain valid UTF-8"
  | .refused why => why.message

end Disk

/-- The content of a disk, and the directory at which relative paths start. -/
structure Disk where
  workingDirectory : Location := []
  entries : Std.ExtTreeMap Location Disk.Entry := ∅
  /-- Why the system refuses to write at a place, or to make something there, if it does. -/
  refusal? : Location → Option Disk.Refusal := fun _ => none

namespace Disk

/-- What is at a place; the root is always a directory. -/
def lookup? (d : Disk) (place : Location) : Option Entry :=
  if place = [] then some .directory else d.entries[place]?

/-- Puts an entry at a place. -/
def put (d : Disk) (place : Location) (entry : Entry) : Disk :=
  { d with entries := d.entries.insert place entry }

/-- Takes away what is at a place and beneath it. -/
def removeTree (d : Disk) (place : Location) : Disk :=
  { d with entries := d.entries.filter fun p _ => ! place.isSuffixOf p }

/-- From now on, the system refuses to write to a place. -/
def refuse (d : Disk) (place : Location) (why : Refusal) : Disk :=
  { d with refusal? := fun p => if p = place then some why else d.refusal? p }

@[simp] theorem workingDirectory_put (d : Disk) (place : Location) (entry : Entry) :
    (d.put place entry).workingDirectory = d.workingDirectory := rfl

@[simp] theorem refusal?_put (d : Disk) (place : Location) (entry : Entry) :
    (d.put place entry).refusal? = d.refusal? := rfl

theorem lookup?_put (d : Disk) (place : Location) (entry : Entry) (p : Location) :
    (d.put place entry).lookup? p =
      if p ≠ [] ∧ p = place then some entry else d.lookup? p := by
  by_cases hp : p = []
  · simp [lookup?, hp]
  · by_cases h : p = place
    · subst h
      simp [lookup?, put, hp]
    · have : ¬ place = p := fun e => h e.symm
      simp [lookup?, put, hp, h, this, Std.ExtTreeMap.getElem?_insert]

/-! ## Following paths -/

/-- The longest name, and the longest path, in bytes. -/
def maxName : Nat := 255

@[inherit_doc maxName]
def maxPath : Nat := 4095

/-- Follows names from a place on. Each name is looked up in a directory; the place that the
last one leads to need not hold anything. -/
def walk (d : Disk) (place : Location) : List String → Except Error Location
  | [] => .ok place
  | name :: rest =>
    match d.lookup? place with
    | none => .error .notFound
    | some (.file _) => .error .notDirectory
    | some .directory =>
      if name = "." then d.walk place rest
      else if name = ".." then d.walk place.tail rest
      else if name.utf8ByteSize > maxName then .error .nameTooLong
      else d.walk (name :: place) rest

/-- Where a path starts. -/
def start (d : Disk) (path : String) : Location :=
  if Path.isAbsolute path then [] else d.workingDirectory

/-- The path is one that the system looks at. -/
def checkPath (path : String) : Except Error Unit :=
  if path.toList.contains (Char.ofNat 0) then .error .nullInName
  else if path = "" then .error .notFound
  else if path.utf8ByteSize > maxPath then .error .nameTooLong
  else .ok ()

/-- The place that a path leads to. A slash at the end asks for a directory. -/
def locate (d : Disk) (path : String) : Except Error Location := do
  checkPath path
  d.walk (d.start path) (Path.names path ++ if Path.endsInSlash path then ["."] else [])

/-- What a path leads to. -/
def find (d : Disk) (path : String) : Except Error Entry := do
  let place ← d.locate path
  match d.lookup? place with
  | some entry => .ok entry
  | none => .error .notFound

/-- The path leads to a file. -/
def isFile (d : Disk) (path : String) : Bool :=
  d.find path matches .ok (.file _)

/-- The path leads to a directory. -/
def isDirectory (d : Disk) (path : String) : Bool :=
  d.find path matches .ok .directory

/-! ## Files -/

/-- The bytes of a file. -/
def read (d : Disk) (path : String) : Except Error ByteArray := do
  match ← d.find path with
  | .file content => .ok content
  | .directory => .error .isDirectory

/-- The text of a file. -/
def readText (d : Disk) (path : String) : Except Error String := do
  match String.fromUTF8? (← d.read path) with
  | some content => .ok content
  | none => .error .notText

/-- The place of a file to write to, which may not exist yet. A path that ends in a slash can
only mean a directory: what its last name leads to is not looked at. Whether the system refuses
to write there is known before anything is written. -/
def locateOutput (d : Disk) (path : String) : Except Error Location := do
  checkPath path
  if Path.endsInSlash path then
    let _ ← d.walk (d.start path) (Path.directories path ++ ["."])
    .error .isDirectory
  else
    let place ← d.walk (d.start path) (Path.names path)
    match d.lookup? place with
    | some .directory => .error .isDirectory
    | _ =>
      match d.refusal? place with
      | some why => .error (.refused why)
      | none => .ok place

/-- Writes a file, which replaces what it held before. -/
def write (d : Disk) (path : String) (content : ByteArray) : Except Error Disk := do
  return d.put (← d.locateOutput path) (.file content)

/-- Makes a file that can be appended to. Its content stays if it exists. -/
def openToAppend (d : Disk) (path : String) : Except Error (Location × Disk) := do
  let place ← d.locateOutput path
  match d.lookup? place with
  | some _ => return (place, d)
  | none => return (place, d.put place (.file .empty))

/-- Appends to the file at a place; where there is no file, nothing happens. -/
def append (d : Disk) (place : Location) (content : ByteArray) : Disk :=
  match d.lookup? place with
  | some (.file before) => d.put place (.file (before ++ content))
  | _ => d

/-! ## Directories -/

/-- Makes the directory to which `names`, the innermost first, lead from `place`. -/
def makeDirectory (d : Disk) (place : Location) (names : List String) : Except Error Disk :=
  match names with
  | [] => .error .alreadyExists
  | name :: outer => do
    let target ← d.walk place (name :: outer).reverse
    match d.lookup? target with
    | some _ => .error .alreadyExists
    | none =>
      match d.refusal? target with
      | some why => .error (.refused why)
      | none => .ok (d.put target .directory)

/-- The names, the innermost first, lead from `place` to a directory. -/
def leadsToDirectory (d : Disk) (place : Location) (names : List String) : Bool :=
  (d.walk place names.reverse).toOption.bind d.lookup? matches some .directory

/-- Makes the directory to which `names`, the innermost first, lead from `place`, and first those
around it where they are missing. It may exist already. -/
def makeDirectories (d : Disk) (place : Location) : List String → Disk × Except Error Unit
  | [] => (d, .ok ())
  | name :: outer =>
    match d.makeDirectory place (name :: outer) with
    | .ok made => (made, .ok ())
    | .error .notFound =>
      match d.makeDirectories place outer with
      | (around, .error cause) => (around, .error cause)
      | (around, .ok ()) =>
        match around.makeDirectory place (name :: outer) with
        | .ok made => (made, .ok ())
        | .error cause =>
          if around.leadsToDirectory place (name :: outer) then (around, .ok ())
          else (around, .error cause)
    | .error cause =>
      if d.leadsToDirectory place (name :: outer) then (d, .ok ()) else (d, .error cause)

/-- Makes the directory that holds the last name of a path, and those around it. -/
def makeParents (d : Disk) (path : String) : Disk × Except Error Unit :=
  let parent := Path.parent path
  if parent = "" then (d, .ok ())
  else
    match checkPath parent with
    | .error cause => (d, .error cause)
    | .ok () => d.makeDirectories (d.start path) ((Path.names parent).filter (· ≠ ".")).reverse

/-! ## Changes by others -/

/-- A file appears, with the directories around it. Nothing happens where it cannot be. -/
def placeFile (d : Disk) (path : String) (content : ByteArray) : Disk :=
  let around := (d.makeParents path).1
  (around.write path content).toOption.getD around

/-- A directory appears, with those around it. -/
def placeDirectory (d : Disk) (path : String) : Disk :=
  (d.makeDirectories (d.start path) (Path.names path).reverse).1

/-- What a path leads to disappears, with everything beneath it. -/
def remove (d : Disk) (path : String) : Disk :=
  match d.locate path with
  | .ok place => d.removeTree place
  | .error _ => d

/-- The places whose entries differ between two disks, each with its entries on both. -/
def changes (before after : Disk) : List (Location × Option Entry × Option Entry) :=
  let places := before.entries.keys ++ after.entries.keys.filter (! before.entries.contains ·)
  (places.map fun p => (p, before.entries[p]?, after.entries[p]?)).filter
    fun (_, old, new) => old != new

end Disk

end ApiDocs
