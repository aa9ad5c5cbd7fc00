import ApiDocs.Merge
import ApiDocs.Store

/-!
# Sessions

A session runs over all declared types: the documentation of each bound type is loaded and merged,
and in the end everything that was loaded is written back. Its store outlives a run, so a later
run of the session goes on with what an earlier one loaded.
-/

namespace ApiDocs

/-- What is kept from one run to the next. -/
structure Session where
  catalog : Catalog
  store : DocStore
  options : MergeOptions := {}
  library : Option FragmentLibrary := none
  /-- Only the type with this full name is looked at. -/
  onlyType : Option String := none

namespace Session

/-- The paths that a run of the session follows: those of the documentation of each declared type,
and of the fragments for its symbols. -/
def paths (s : Session) : List String :=
  s.catalog.types.toList.flatMap fun t =>
    s.store.path t :: t.exported.filterMap fun (_, symbol) =>
      s.library.bind (·.path? t symbol)

/-- The parts of the work on one type. The notices of each part are given before the next begins,
so a fragment is read from the disk as they leave it. -/
def mergeTask (s : Session) (t : ApiType) (state : Workspace × TypeDoc × MergeReport)
    (task : MergeTask) : Workspace × TypeDoc × MergeReport :=
  let (w, doc, report) := state
  let merged := task.perform s.options (s.library.map (·.source w.disk)) s.catalog t doc
  (w.noteAll merged.notices, merged.doc, report + merged.report)

/-- Merges the documentation of a bound type. -/
def mergeType (s : Session) (w : Workspace) (t : ApiType) (binding : EventBinding)
    (doc : TypeDoc) : Workspace × TypeDoc × MergeReport :=
  (mergeTasks t binding).foldl (s.mergeTask t) (w, doc, {})

/-- A run that has come to some type. -/
structure Progress where
  session : Session
  workspace : Workspace
  report : RunReport := {}

/-- Loads and merges the documentation of a bound type. -/
def Progress.visit (p : Progress) (t : ApiType) (binding : EventBinding) : Progress :=
  let (notices, store, found) := p.session.store.get p.workspace.disk t
  let w := p.workspace.noteAll notices
  match found with
  | none => { p with workspace := w, report.typesSkipped := p.report.typesSkipped + 1 }
  | some doc =>
    let (w, doc, merged) := p.session.mergeType (w.note (.processing t.fullName)) t binding doc
    { session := { p.session with store := store.update t.fullName doc }
      workspace := w
      report :=
        { p.report with
          typesProcessed := p.report.typesProcessed + 1
          merge := p.report.merge + merged } }

/-- The next type of a run. One that is not bound, or not the one asked for, is passed over. -/
def Progress.step (p : Progress) (t : ApiType) : Progress :=
  if p.session.onlyType.any (· ≠ t.fullName) then p
  else
    match t.binding with
    | none => p
    | some binding => p.visit t binding

/-- Runs over all types, and writes back what was loaded. -/
def run (s : Session) (w : Workspace) : Session × Workspace × Except Failure RunReport :=
  let p := s.catalog.types.toList.foldl Progress.step { session := s, workspace := w }
  let (w, saved) := p.session.store.saveAll (p.workspace.print "saving")
  (p.session, w, saved.map fun count => { p.report with documentsSaved := count })

/-- The session that a configuration describes. -/
def ofConfig (c : Config) (catalog : Catalog) : Session where
  catalog
  store := { root := c.languageRoot }
  options := { mergeExternal := c.mergeExternal, notificationType := c.notificationType }
  library := if c.mergeExternal then some ⟨c.fragmentRoot⟩ else none
  onlyType := c.onlyType

end Session

/-- Runs once as a configuration says. -/
def runConfig (c : Config) (catalog : Catalog) (w : Workspace) :
    Workspace × Except Failure RunReport :=
  let w := if c.mergeExternal then w.note (.mergingFrom c.fragmentRoot) else w
  ((Session.ofConfig c catalog).run w).2

end ApiDocs
