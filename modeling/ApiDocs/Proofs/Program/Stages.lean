import ApiDocs.Proofs.Config.Arguments
import ApiDocs.Proofs.Program.LogFile

/-!
# How far the program comes

The program comes to the types if none of its stages before fails. Then it says that it is saving, and
the exit code tells whether everything could be saved. Otherwise it says nothing of the kind, and
nothing on the disk differs but what belongs to the journal.
-/

namespace ApiDocs.Program

open Disk Workspace

/-! ## The stages before the types -/

/-- What the stages before the types have given. -/
structure Start where
  config : Config
  disk : Disk
  journal : Option Journal
  catalog : Catalog

namespace Start

def opened (start : Start) : Workspace :=
  { disk := start.disk, journal := start.journal }

/-- The disk on which the metadata is looked for. The journal may be what is found there. -/
def source (start : Start) : Disk :=
  (start.opened.note (.arguments start.config)).disk

/-- The workspace in which the types are worked on. -/
def begun (start : Start) : Workspace :=
  let loaded := (start.opened.note (.arguments start.config)).noteAll
    (Catalog.load start.source start.config.metadataPath).1
  let w := loaded.note
    (.metadataLoaded start.catalog.types.size start.config.metadataPath)
  if start.config.mergeExternal then w.note (.mergingFrom start.config.fragmentRoot) else w

/-- The documents that have been loaded once all types are processed. -/
def documents (start : Start) : List (String × LoadedDoc) :=
  (Session.ofConfig start.config start.catalog).loadedDocs start.begun

/-- All documents that the program loads can be written back. -/
def SavesAll (start : Start) : Prop :=
  ∀ doc ∈ start.documents, start.disk.isWritable doc.2.path = true

/-- The documents that the program writes back. It stops at the first that cannot be written, so these
are all of them if there is none. -/
def saved (start : Start) : List (String × LoadedDoc) :=
  DocStore.savable start.disk start.documents

/-- Each place but that of the journal holds the last document that was written there, or what was
there before. -/
def IsSavedOn (start : Start) (after : Disk) : Prop :=
  ∀ place, (∀ j ∈ start.journal, j.place ≠ place) → after.lookup? place =
    ((DocStore.lastSaved? start.disk start.saved place).map (·.2.entry)).or
      (start.disk.lookup? place)

/-- None of the stages fails. -/
structure IsOf (start : Start) (stamp : String) (args : List String)
    (environment : String → Option String) (d : Disk) : Prop where
  command : Command.ofArgs args environment = .ok (.run start.config)
  journal : openJournal stamp start.config d = (start.disk, .ok start.journal)
  layout : checkLayout start.disk start.config.docsRoot = .ok ()
  metadata : (Catalog.load start.source start.config.metadataPath).2 = .ok start.catalog

variable {start other : Start} {stamp : String} {args : List String}
  {environment : String → Option String} {d : Disk}

theorem onlyNotes_begun (start : Start) : OnlyNotes start.opened start.begun := by
  have hloaded := (onlyNotes_note start.opened (.arguments start.config)).trans
    (onlyNotes_noteAll _ (Catalog.load start.source start.config.metadataPath).1)
  have hcounted := hloaded.trans (onlyNotes_note _
    (.metadataLoaded start.catalog.types.size start.config.metadataPath))
  rw [begun]
  split
  · exact hcounted.trans (onlyNotes_note _ _)
  · exact hcounted

theorem IsOf.unique (h : start.IsOf stamp args environment d)
    (h' : other.IsOf stamp args environment d) : start = other := by
  obtain ⟨config, disk, journal, catalog⟩ := start
  obtain ⟨config', disk', journal', catalog'⟩ := other
  obtain ⟨hcommand, hjournal, -, hmetadata⟩ := h
  obtain ⟨hcommand', hjournal', -, hmetadata'⟩ := h'
  obtain rfl : config = config' := by simpa using hcommand.symm.trans hcommand'
  obtain ⟨rfl, rfl⟩ : disk = disk' ∧ journal = journal' := by
    simpa using hjournal.symm.trans hjournal'
  obtain rfl : catalog = catalog' := Except.ok.inj (hmetadata.symm.trans hmetadata')
  rfl

end Start

/-! ## The work on the types -/

theorem document_of_refused {c : Config} {w : Workspace} {cause : Failure}
    (h : (Catalog.load (w.note (.arguments c)).disk c.metadataPath).2 = .error cause) :
    OnlyNotes w (document c w).1 ∧ (document c w).2 = false := by
  have hbegun := onlyNotes_note w (.arguments c)
  rw [document]
  generalize Catalog.load (w.note (.arguments c)).disk c.metadataPath = loaded at h
  obtain ⟨notices, result⟩ := loaded
  obtain rfl : result = .error cause := h
  have htold := hbegun.trans (onlyNotes_noteAll _ notices)
  exact ⟨htold.trans (onlyNotes_note _ (.metadataRefused c.metadataPath cause)), rfl⟩

theorem document_of_loaded {start : Start}
    (h : (Catalog.load start.source start.config.metadataPath).2 = .ok start.catalog) :
    document start.config start.opened =
      match ((Session.ofConfig start.config start.catalog).run start.begun).2 with
      | (w, .error cause) => (w.note (.unfinished cause), false)
      | (w, .ok report) => (w.note (.finished report), true) := by
  have hsource : (start.opened.note (.arguments start.config)).disk = start.source := rfl
  rw [document, Start.begun]
  simp only [hsource]
  generalize Catalog.load start.source start.config.metadataPath = loaded at h
  obtain ⟨notices, result⟩ := loaded
  obtain rfl : result = .ok start.catalog := h
  rfl

theorem isOk_run_begun_iff (start : Start) :
    ((Session.ofConfig start.config start.catalog).run start.begun).2.2.isOk = true ↔
      start.SavesAll := by
  have hsame := start.onlyNotes_begun.shape.sameDirectories
  rw [Session.isOk_run_iff]
  simp only [hsame.isWritable_eq]
  rfl

theorem isSavedOn_run_begun (start : Start) :
    start.IsSavedOn ((Session.ofConfig start.config start.catalog).run start.begun).2.1.disk := by
  intro place hplace
  have hbegun := start.onlyNotes_begun
  have hsame := hbegun.shape.sameDirectories
  have hjournal : ∀ j ∈ start.begun.journal, j.place ≠ place := by
    rw [hbegun.journal]
    exact hplace
  rw [Session.lookup?_run _ _ hjournal, hbegun.elsewhere place hplace, Session.savedDocs,
    DocStore.savable_eq_of_sameDirectories hsame, DocStore.lastSaved?_eq_of_sameDirectories hsame]
  rfl

/-- What the work leaves once the metadata has been loaded. -/
structure Documents (start : Start) (after : Workspace) (succeeded : Bool) : Prop where
  printed : after.printed = ["saving"]
  succeeds : succeeded = true ↔ start.SavesAll
  isSaved : start.IsSavedOn after.disk

theorem documents_document {start : Start}
    (h : (Catalog.load start.source start.config.metadataPath).2 = .ok start.catalog) :
    Documents start (document start.config start.opened).1
      (document start.config start.opened).2 := by
  let s := Session.ofConfig start.config start.catalog
  have hprinted : (s.run start.begun).2.1.printed = ["saving"] := by
    rw [Session.printed_run, start.onlyNotes_begun.printed]
    rfl
  have hjournal : (s.run start.begun).2.1.journal = start.journal :=
    (s.journal_run start.begun).trans start.onlyNotes_begun.journal
  have hsucceeds : (s.run start.begun).2.2.isOk = true ↔ start.SavesAll :=
    isOk_run_begun_iff start
  have hsaved : start.IsSavedOn (s.run start.begun).2.1.disk := isSavedOn_run_begun start
  -- the last notice reports the run; it leaves everything but the journal as it is
  have hnoted (n : Notice) : start.IsSavedOn ((s.run start.begun).2.1.note n).disk := by
    intro place hplace
    rw [← hsaved place hplace]
    apply (onlyNotes_note (s.run start.begun).2.1 n).elsewhere
    rwa [hjournal]
  rw [document_of_loaded h]
  change Documents start (match (s.run start.begun).2 with
    | (w, .error cause) => (w.note (.unfinished cause), false)
    | (w, .ok report) => (w.note (.finished report), true)).1 _
  generalize (s.run start.begun).2 = ran at *
  obtain ⟨w, cause | report⟩ := ran
  · exact ⟨hprinted, hsucceeds, hnoted (.unfinished cause)⟩
  · exact ⟨hprinted, hsucceeds, hnoted (.finished report)⟩

/-! ## The outcome -/

variable {start : Start} {stamp : String} {args : List String}
  {environment : String → Option String} {d : Disk}

/-- The file for the journal, if these arguments and this environment ask for a run with one. -/
def logFile? (args : List String) (environment : String → Option String) : Option String :=
  match Command.ofArgs args environment with
  | .ok (.run c) => c.logFile
  | _ => none

theorem run_of_isOf (h : start.IsOf stamp args environment d) :
    run stamp args environment d = outcome start.config (document start.config start.opened).1
      (document start.config start.opened).2 := by
  simp only [run, h.command, h.journal, h.layout]
  rfl

/-- What the program leaves if it does not come to the types. -/
structure StopsEarly (args : List String) (environment : String → Option String) (d : Disk)
    (o : Outcome) : Prop where
  exitCode : o.exitCode = if Arguments.AskForHelp args then 0 else 1
  silent : "saving" ∉ o.printed
  spares : d.SparesAllBut (logFile? args environment) o.disk

theorem not_askForHelp_of_run {c : Config} (h : Command.ofArgs args environment = .ok (.run c)) :
    ¬ Arguments.AskForHelp args := by
  intro hhelp
  rw [Command.ofArgs_of_askForHelp hhelp] at h
  cases h

theorem not_mem_usage : "saving" ∉ [usageText] := by
  decide

theorem not_mem_layout : "saving" ∉ [Failure.layout.message] := by
  decide

theorem checkLayout_eq_error {docsRoot : String} {cause : Failure}
    (h : checkLayout d docsRoot = .error cause) : cause = .layout := by
  rw [checkLayout] at h
  split at h
  · cases h
  · cases h
    rfl

theorem stopsEarly_of_not_run (h : ∀ c, Command.ofArgs args environment ≠ .ok (.run c)) :
    StopsEarly args environment d (run stamp args environment d) := by
  have hanswers := Command.answers_ofArgs args environment
  rw [run]
  cases hcommand : Command.ofArgs args environment with
  | error cause =>
    have hargs : ¬ Arguments.AskForHelp args := by
      rw [← hanswers.help, hcommand]
      simp
    exact ⟨(if_neg hargs).symm, not_mem_usage, .refl _ d⟩
  | ok command =>
    cases command with
    | help => exact ⟨(if_pos (hanswers.help.1 hcommand)).symm, not_mem_usage, .refl _ d⟩
    | run c => exact absurd hcommand (h c)

theorem stopsEarly_of_run {c : Config} (hcommand : Command.ofArgs args environment = .ok (.run c))
    (h : ∀ start : Start, ¬ start.IsOf stamp args environment d) :
    StopsEarly args environment d (run stamp args environment d) := by
  have hexit : 1 = if Arguments.AskForHelp args then 0 else 1 :=
    (if_neg (not_askForHelp_of_run hcommand)).symm
  have hfile : logFile? args environment = c.logFile := by rw [logFile?, hcommand]
  have hopens := opens_openJournal stamp c d
  simp only [run, hcommand]
  cases hjournal : openJournal stamp c d with
  | mk opened result =>
    rw [hjournal, ← hfile] at hopens
    cases result with
    | error cause => exact ⟨hexit, List.not_mem_nil, hopens.spares⟩
    | ok journal =>
      simp only
      cases hlayout : checkLayout opened c.docsRoot with
      | error cause =>
        obtain rfl := checkLayout_eq_error hlayout
        exact ⟨hexit, not_mem_layout, hopens.spares⟩
      | ok _ =>
        -- all other stages have been passed, so the metadata was refused
        cases hmetadata : (Catalog.load (({ disk := opened, journal } : Workspace).note
            (.arguments c)).disk c.metadataPath).2 with
        | ok catalog =>
          exact absurd ⟨hcommand, hjournal, hlayout, hmetadata⟩ (h ⟨c, opened, journal, catalog⟩)
        | error cause =>
          obtain ⟨hnotes, hfailed⟩ := document_of_refused hmetadata
          constructor
          case exitCode => rwa [outcome, hfailed]
          case silent => simp [outcome, hnotes.printed]
          case spares => exact hopens.spares_of_onlyNotes hnotes

theorem stopsEarly_run (h : ∀ start : Start, ¬ start.IsOf stamp args environment d) :
    StopsEarly args environment d (run stamp args environment d) := by
  by_cases hrun : ∃ c, Command.ofArgs args environment = .ok (.run c)
  · obtain ⟨c, hcommand⟩ := hrun
    exact stopsEarly_of_run hcommand h
  · exact stopsEarly_of_not_run (not_exists.1 hrun)

/-- What the outcome of the program tells about how far it has come. -/
structure Tells (stamp : String) (args : List String) (environment : String → Option String)
    (d : Disk) (o : Outcome) : Prop where
  succeeds : o.exitCode = 0 ↔ Arguments.AskForHelp args ∨
    ∃ start : Start, start.IsOf stamp args environment d ∧ start.SavesAll
  fails : o.exitCode = 0 ∨ o.exitCode = 1
  /-- It is said once that documents are being saved, whatever the verbosity. -/
  saving : (∃ start : Start, start.IsOf stamp args environment d) → o.printed.count "saving" = 1
  silent : (¬ ∃ start : Start, start.IsOf stamp args environment d) → "saving" ∉ o.printed
  spares : "saving" ∉ o.printed → d.SparesAllBut (logFile? args environment) o.disk
  /-- What could be saved is in its file then, be it all documents or those in front of a failure. -/
  isSaved : ∀ start : Start, start.IsOf stamp args environment d → start.IsSavedOn o.disk

/-- The exit code and what is printed tell how far the program has come; and if it has not come to the
types, everything on the disk but the log file and the directories made for it is as it was. -/
theorem run_tells (stamp : String) (args : List String) (environment : String → Option String)
    (d : Disk) : Tells stamp args environment d (run stamp args environment d) := by
  by_cases hstart : ∃ start : Start, start.IsOf stamp args environment d
  · obtain ⟨start, h⟩ := hstart
    obtain ⟨hprinted, hsaved, hdisk⟩ := documents_document h.metadata
    have hargs := not_askForHelp_of_run h.command
    have hsaves : (∃ start : Start, start.IsOf stamp args environment d ∧ start.SavesAll) ↔
        start.SavesAll := by
      constructor
      · rintro ⟨other, hother, hall⟩
        rwa [h.unique hother]
      · exact fun hall => ⟨start, h, hall⟩
    rw [run_of_isOf h]
    constructor
    case succeeds =>
      rw [hsaves, ← hsaved]
      simp [outcome, hargs]
    case fails =>
      simp only [outcome]
      split <;> simp
    case saving => simp [outcome, hprinted]
    case silent => exact fun hno => absurd ⟨start, h⟩ hno
    case spares => simp [outcome, hprinted]
    case isSaved =>
      intro other hother
      obtain rfl := h.unique hother
      exact hdisk
  · have hearly := stopsEarly_run (not_exists.1 hstart)
    have hno : ¬ ∃ start : Start, start.IsOf stamp args environment d ∧ start.SavesAll :=
      fun ⟨start, h, _⟩ => hstart ⟨start, h⟩
    constructor
    case succeeds => simp [hearly.exitCode, hno]
    case fails =>
      rw [hearly.exitCode]
      split <;> simp
    case saving => exact fun hyes => absurd hyes hstart
    case silent => exact fun _ => hearly.silent
    case spares => exact fun _ => hearly.spares
    case isSaved => exact fun start h => absurd ⟨start, h⟩ hstart

namespace Sample

def arguments : List String := ["lib.json", "docs"]

/-- The log file is in a directory next to one that is made only to be left again. -/
def settings (key : String) : Option String :=
  if key = "DOCFIXER_LOG_FILE" then some "logs/../x/run.log" else none

/-- There is no metadata. -/
def bare : Disk := (Disk.put {} ["docs"] .directory).put ["en", "docs"] .directory

/-- The metadata is there, but the documentation of its type may only be read. -/
def readOnly : Disk :=
  let metadata := "\x7b\"types\": [\x7b\"name\": \"T\", \"binding\": \x7b\x7d\x7d]\x7d"
  let filled := (bare.placeFile "lib.json" metadata.toUTF8).placeFile "docs/en/T.xml"
    "<Type/>".toUTF8
  filled.refuse ["T.xml", "en", "docs"] .readOnly

end Sample

/-- First the metadata is missing, and the journal has told so. Then the document that was loaded
cannot be saved, and stays as it was. -/
theorem run_tells_refused :
    let o := run "now" Sample.arguments Sample.settings Sample.bare
    let o' := run "now" Sample.arguments Sample.settings Sample.readOnly
    (o.exitCode = 1 ∧ "saving" ∉ o.printed ∧
      Sample.bare.SparesAllBut (some "logs/../x/run.log") o.disk ∧
      o.disk.isDirectory "logs" = true ∧ o.disk.isFile "x/run.log" = true) ∧
      (∃ start : Start, start.IsOf "now" Sample.arguments Sample.settings Sample.readOnly ∧
        ¬ start.SavesAll) ∧
      o'.exitCode = 1 ∧ o'.printed.count "saving" = 1 ∧
      o'.disk.readText "docs/en/T.xml" = .ok "<Type/>" := by
  intro o o'
  have htells := run_tells "now" Sample.arguments Sample.settings Sample.bare
  have htells' := run_tells "now" Sample.arguments Sample.settings Sample.readOnly
  have hsilent : "saving" ∉ o.printed := by decide +kernel
  have hends : o'.exitCode = 1 ∧ o'.printed.count "saving" = 1 ∧
      o'.disk.readText "docs/en/T.xml" = .ok "<Type/>" := by
    decide +kernel
  have hstart : ∃ start : Start,
      start.IsOf "now" Sample.arguments Sample.settings Sample.readOnly := by
    by_contra hnone
    have hsaving : 0 < o'.printed.count "saving" := by omega
    exact htells'.silent hnone (List.count_pos_iff.1 hsaving)
  refine ⟨⟨by decide +kernel, hsilent, htells.spares hsilent, by decide +kernel, by decide +kernel⟩,
    ?_, hends⟩
  obtain ⟨start, hstart⟩ := hstart
  refine ⟨start, hstart, fun hall => ?_⟩
  have hzero : o'.exitCode = 0 := htells'.succeeds.2 (.inr ⟨start, hstart, hall⟩)
  have hone : o'.exitCode = 1 := hends.1
  rw [hzero] at hone
  cases hone

end ApiDocs.Program
