import ApiDocs.Metadata.Basic
import ApiDocs.TypeDoc
import ApiDocs.Workspace

/-!
# The store of documentation

The store loads the documentation of a type when it is first asked for, keeps it for editing, and
writes everything that it has loaded back in the end. A file that was never loaded is never
written, and one that is missing or cannot be read is looked at again the next time.
-/

namespace ApiDocs

/-- A documentation file that was loaded, and its content as it has been edited since. -/
structure LoadedDoc where
  path : String
  doc : TypeDoc
  deriving DecidableEq, Repr

/-- The documentation that was loaded from beneath a directory, by full name. -/
structure DocStore where
  /-- The directory that holds a directory for each namespace. -/
  root : String
  docs : Std.ExtTreeMap String LoadedDoc := ∅

namespace DocStore

/-- The documentation file of a type. -/
def path (s : DocStore) (t : ApiType) : String :=
  Path.join (Path.join s.root t.nameSpace) (t.name ++ ".xml")

/-- Reads a documentation file. -/
def read (d : Disk) (path : String) : Except Failure TypeDoc :=
  match d.readText path with
  | .error cause => .error (.disk (.readDocument path) cause)
  | .ok content =>
    match TypeDoc.parse content with
    | .error cause => .error (.xml path cause)
    | .ok doc => .ok doc

/-- The documentation of a type, which is loaded if it has not been before. -/
def get (s : DocStore) (d : Disk) (t : ApiType) : List Notice × DocStore × Option TypeDoc :=
  match s.docs[t.fullName]? with
  | some loaded => ([], s, some loaded.doc)
  | none =>
    let path := s.path t
    if d.isFile path then
      match read d path with
      | .ok doc =>
        ([.documentLoaded t.fullName path],
          { s with docs := s.docs.insert t.fullName ⟨path, doc⟩ }, some doc)
      | .error cause => ([.documentRefused path cause], s, none)
    else ([.documentPending t.fullName], s, none)

/-- Puts edited documentation in place of what was loaded. -/
def update (s : DocStore) (fullName : String) (doc : TypeDoc) : DocStore :=
  match s.docs[fullName]? with
  | some loaded => { s with docs := s.docs.insert fullName { loaded with doc } }
  | none => s

/-- The documentation for this full name has been loaded. -/
def isLoaded (s : DocStore) (fullName : String) : Bool := s.docs.contains fullName

/-- The full names whose documentation has been loaded, in ascending order. -/
def loadedTypes (s : DocStore) : List String := s.docs.keys

/-- Writes documents in order, up to the first that cannot be written. -/
def saveEach (w : Workspace) : List (String × LoadedDoc) → Workspace × Except Failure Unit
  | [] => (w, .ok ())
  | (fullName, loaded) :: rest =>
    match w.disk.write loaded.path loaded.doc.render.toUTF8 with
    | .error cause => (w, .error (.disk (.saveDocument fullName loaded.path) cause))
    | .ok disk => saveEach ({ w with disk }.note (.documentSaved loaded.path)) rest

/-- Writes everything back that was loaded, in ascending order of full names, and counts it. -/
def saveAll (s : DocStore) (w : Workspace) : Workspace × Except Failure Nat :=
  let (w, result) := saveEach w s.docs.toList
  (w, result.map fun _ => s.docs.size)

end DocStore

end ApiDocs
