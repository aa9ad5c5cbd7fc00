import ApiDocs.Metadata.Reader
import ApiDocs.Session

/-!
# The program

The whole program as a function of its arguments, its environment and the disk. It stops with exit
code one at the first stage that fails: the arguments, the journal, the layout of the
documentation, the metadata, and writing the documents back.
-/

namespace ApiDocs

/-- What the program leaves behind. -/
structure Outcome where
  exitCode : Nat
  /-- The lines on the standard output. -/
  printed : List String := []
  /-- The lines on the standard error output. -/
  diagnostics : List String := []
  disk : Disk

namespace Program

/-- Opens the journal that a configuration asks for, if it asks for one. The directories around it
are made first. -/
def openJournal (stamp : String) (c : Config) (d : Disk) :
    Disk × Except Disk.Error (Option Journal) :=
  match c.logFile with
  | none => (d, .ok none)
  | some path =>
    match d.makeParents path with
    | (d, .error cause) => (d, .error cause)
    | (d, .ok ()) =>
      match d.openToAppend path with
      | .error cause => (d, .error cause)
      | .ok (place, d) => (d, .ok (some ⟨place, c.verbosity, stamp⟩))

/-- The work of the program once its journal is open and the layout is right: whether it succeeds,
and what it leaves. -/
def document (c : Config) (w : Workspace) : Workspace × Bool :=
  let w := w.note (.arguments c)
  match Catalog.load w.disk c.metadataPath with
  | (notices, .error cause) =>
    ((w.noteAll notices).note (.metadataRefused c.metadataPath cause), false)
  | (notices, .ok catalog) =>
    let w := (w.noteAll notices).note (.metadataLoaded catalog.types.size c.metadataPath)
    match runConfig c catalog w with
    | (w, .error cause) => (w.note (.unfinished cause), false)
    | (w, .ok report) => (w.note (.finished report), true)

/-- The outcome of the work. Notices are shown as far as the verbosity allows. -/
def outcome (c : Config) (w : Workspace) (succeeded : Bool) : Outcome where
  exitCode := if succeeded then 0 else 1
  printed := w.printed
  diagnostics := (w.notices.filter (c.verbosity.shows ·.level)).map (·.line)
  disk := w.disk

/-- Runs the program. `stamp` is the time that the journal shows. -/
def run (stamp : String) (args : List String) (environment : String → Option String)
    (d : Disk) : Outcome :=
  match Command.ofArgs args environment with
  | .error _ => { exitCode := 1, printed := [usageText], disk := d }
  | .ok .help => { exitCode := 0, printed := [usageText], disk := d }
  | .ok (.run c) =>
    match openJournal stamp c d with
    | (d, .error cause) =>
      { exitCode := 1
        diagnostics := [s!"Failed to initialize logger: {cause.message}"]
        disk := d }
    | (d, .ok journal) =>
      match checkLayout d c.docsRoot with
      | .error cause => { exitCode := 1, printed := [cause.message], disk := d }
      | .ok () =>
        let (w, succeeded) := document c { disk := d, journal }
        outcome c w succeeded

end Program

end ApiDocs
