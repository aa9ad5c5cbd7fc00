import ApiDocs.Proofs.Session.SideBySide
import ApiDocs.Proofs.Store.InOrder

/-!
# Runs that keep a journal

Until it writes documents back, a run prints nothing and only gives notices. With a journal these are
appended to its file, so the disk keeps its shape, and nothing else on it changes. Which documents
can be written back is therefore known before the run begins. In the end the disk holds those in front
of the first that cannot, and all of them if each can.
-/

namespace ApiDocs

/-! ## Appending to a file -/

namespace Disk

variable (d : Disk) (place : Location) (content : ByteArray)

theorem append_eq_or :
    d.append place content = d ∨ ∃ before, d.lookup? place = some (.file before) ∧
      d.append place content = d.put place (.file (before ++ content)) := by
  rw [append]
  split
  · next before hfile => exact .inr ⟨before, hfile, rfl⟩
  · exact .inl rfl

theorem sameShape_append : SameShape d (d.append place content) := by
  rcases d.append_eq_or place content with heq | ⟨before, hfile, heq⟩ <;> rw [heq]
  · exact .refl d
  · exact sameShape_put hfile _

theorem lookup?_append_of_ne {other : Location} (h : other ≠ place) :
    (d.append place content).lookup? other = d.lookup? other := by
  rcases d.append_eq_or place content with heq | ⟨before, hfile, heq⟩ <;> rw [heq]
  rw [lookup?_put_file hfile, if_neg h]

theorem SameShape.sameDirectories {d d' : Disk} (h : SameShape d d') : SameDirectories d d' := by
  refine ⟨h.workingDirectory, h.refusal?, fun place => ?_⟩
  rcases h.lookup?_or place with ⟨hd, hd'⟩ | ⟨hd, hd'⟩ | ⟨_, _, hd, hd'⟩ <;> simp [hd, hd']

end Disk

/-! ## Giving notices -/

namespace Workspace

/-- From `w` to `after` notices were given, and nothing else was done. -/
structure OnlyNotes (w after : Workspace) : Prop where
  journal : after.journal = w.journal
  printed : after.printed = w.printed
  shape : Disk.SameShape w.disk after.disk
  elsewhere : ∀ place, (∀ j ∈ w.journal, j.place ≠ place) →
    after.disk.lookup? place = w.disk.lookup? place

namespace OnlyNotes

theorem refl (w : Workspace) : OnlyNotes w w := ⟨rfl, rfl, .refl _, fun _ _ => rfl⟩

theorem trans {w w' w'' : Workspace} (h : OnlyNotes w w') (h' : OnlyNotes w' w'') :
    OnlyNotes w w'' where
  journal := h'.journal.trans h.journal
  printed := h'.printed.trans h.printed
  shape := h.shape.trans h'.shape
  elsewhere place hplace := by
    rw [h'.elsewhere place (by rwa [h.journal]), h.elsewhere place hplace]

/-- What holds of each step holds of all of them. -/
theorem foldl {σ α : Type} {step : σ → α → σ} (workspace : σ → Workspace)
    (hstep : ∀ state item, OnlyNotes (workspace state) (workspace (step state item)))
    (items : List α) (state : σ) :
    OnlyNotes (workspace state) (workspace (items.foldl step state)) := by
  induction items generalizing state with
  | nil => exact refl _
  | cons item rest ih => exact (hstep state item).trans (ih (step state item))

end OnlyNotes

theorem onlyNotes_note (w : Workspace) (n : Notice) : OnlyNotes w (w.note n) := by
  cases hjournal : w.journal with
  | none =>
    have hdisk := disk_note_of_journal_eq_none hjournal n
    refine ⟨rfl, rfl, ?_, fun _ _ => by rw [hdisk]⟩
    rw [hdisk]
    exact .refl _
  | some j =>
    have hdisk : (w.note n).disk = j.receive n w.disk := by rw [note, hjournal]
    by_cases hshown : j.verbosity.shows n.level = true
    · rw [Journal.receive, if_pos hshown] at hdisk
      constructor
      case journal => rfl
      case printed => rfl
      case shape =>
        rw [hdisk]
        exact Disk.sameShape_append _ _ _
      case elsewhere =>
        intro place hplace
        rw [hdisk]
        exact Disk.lookup?_append_of_ne _ _ _ (hplace j hjournal).symm
    · rw [Journal.receive, if_neg hshown] at hdisk
      refine ⟨rfl, rfl, ?_, fun _ _ => by rw [hdisk]⟩
      rw [hdisk]
      exact .refl _

theorem onlyNotes_noteAll (w : Workspace) (notices : List Notice) :
    OnlyNotes w (w.noteAll notices) :=
  .foldl id onlyNotes_note notices w

end Workspace

/-! ## Passing the types -/

namespace Session

open Workspace

theorem onlyNotes_mergeTask (s : Session) (t : ApiType)
    (state : Workspace × TypeDoc × MergeReport) (task : MergeTask) :
    OnlyNotes state.1 (s.mergeTask t state task).1 :=
  onlyNotes_noteAll state.1 _

theorem onlyNotes_mergeType (s : Session) (w : Workspace) (t : ApiType) (binding : EventBinding)
    (doc : TypeDoc) : OnlyNotes w (s.mergeType w t binding doc).1 :=
  .foldl Prod.fst (s.onlyNotes_mergeTask t) (mergeTasks t binding) (w, doc, {})

theorem Progress.onlyNotes_visit (p : Progress) (t : ApiType) (binding : EventBinding) :
    OnlyNotes p.workspace (p.visit t binding).workspace := by
  rw [visit]
  generalize p.session.store.get p.workspace.disk t = got
  obtain ⟨notices, store, found⟩ := got
  have hloaded := onlyNotes_noteAll p.workspace notices
  cases found with
  | none => exact hloaded
  | some doc =>
    have hbegun := hloaded.trans (onlyNotes_note _ (.processing t.fullName))
    exact hbegun.trans (p.session.onlyNotes_mergeType _ t binding doc)

theorem Progress.onlyNotes_step (p : Progress) (t : ApiType) :
    OnlyNotes p.workspace (p.step t).workspace := by
  rw [step]
  split
  · exact .refl _
  · split
    · exact .refl _
    · next binding _ => exact p.onlyNotes_visit t binding

/-- A run that passes the types loads documents, and does not write. -/
theorem onlyNotes_traverse (s : Session) (w : Workspace) :
    OnlyNotes w (s.traverse w).workspace :=
  .foldl Progress.workspace Progress.onlyNotes_step s.catalog.types.toList
    { session := s, workspace := w }

end Session

/-! ## Writing documents back -/

namespace DocStore

theorem saveEach_keeps (w : Workspace) (docs : List (String × LoadedDoc)) :
    (saveEach w docs).1.printed = w.printed ∧ (saveEach w docs).1.journal = w.journal := by
  induction docs generalizing w with
  | nil => exact ⟨rfl, rfl⟩
  | cons doc rest ih =>
    rw [saveEach]
    split
    · exact ⟨rfl, rfl⟩
    · exact ih _

/-- The workspace once a document has been written to a place, and that has been told. -/
def written (w : Workspace) (loaded : LoadedDoc) (place : Location) : Workspace :=
  ({ w with disk := w.disk.put place loaded.entry } : Workspace).note (.documentSaved loaded.path)

variable {w : Workspace} {fullName : String} {loaded : LoadedDoc} {place : Location}
  {rest : List (String × LoadedDoc)}

theorem saveEach_cons (h : w.disk.locateOutput loaded.path = .ok place) :
    saveEach w ((fullName, loaded) :: rest) = saveEach (written w loaded place) rest := by
  rw [saveEach, Disk.write_of_locateOutput h]
  rfl

theorem onlyNotes_written (w : Workspace) (loaded : LoadedDoc) (place : Location) :
    Workspace.OnlyNotes { w with disk := w.disk.put place loaded.entry } (written w loaded place) :=
  Workspace.onlyNotes_note _ _

/-- Neither the document nor the notice about it makes a directory, or removes one. -/
theorem sameDirectories_written (h : w.disk.locateOutput loaded.path = .ok place) :
    Disk.SameDirectories w.disk (written w loaded place).disk := by
  have hput : Disk.SameDirectories w.disk (w.disk.put place loaded.entry) :=
    Disk.sameDirectories_put (Disk.locateOutput_eq_ok_iff.1 h).2.2.1 _
  exact hput.trans (onlyNotes_written w loaded place).shape.sameDirectories

theorem lookup?_written (h : w.disk.locateOutput loaded.path = .ok place) {other : Location}
    (hother : ∀ j ∈ w.journal, j.place ≠ other) :
    (written w loaded place).disk.lookup? other =
      if other = place then some loaded.entry else w.disk.lookup? other := by
  have hput :=
    Disk.lookup?_put_of_not_directory (Disk.locateOutput_eq_ok_iff.1 h).2.2.1 loaded.entry
  rw [← hput]
  exact (onlyNotes_written w loaded place).elsewhere other hother

/-- The documents are all saved if, and only if, each of their paths could be written before. -/
theorem saveEach_eq_ok_iff {docs : List (String × LoadedDoc)} :
    (saveEach w docs).2 = .ok () ↔ ∀ doc ∈ docs, w.disk.isWritable doc.2.path = true := by
  induction docs generalizing w with
  | nil => simp [saveEach]
  | cons doc rest ih =>
    rw [List.forall_mem_cons]
    cases houtput : w.disk.locateOutput doc.2.path with
    | error cause =>
      rw [saveEach, Disk.write_eq_error_iff.2 houtput]
      simp [Disk.isWritable, houtput]
    | ok place =>
      have hwritable := Disk.isWritable_iff.2 ⟨place, houtput⟩
      have hpaths (path : String) := (sameDirectories_written houtput).isWritable_eq path
      rw [saveEach_cons houtput, ih, and_iff_right hwritable]
      simp only [hpaths]

/-- Without a journal, what becomes of saving depends on the disk and the documents alone. -/
theorem result_saveEach_congr {w w' : Workspace} (hjournal : w.journal = none)
    (hjournal' : w'.journal = none) (hdisk : w'.disk = w.disk) (docs : List (String × LoadedDoc)) :
    (saveEach w' docs).2 = (saveEach w docs).2 := by
  induction docs generalizing w w' with
  | nil => rfl
  | cons doc rest ih =>
    cases houtput : w.disk.locateOutput doc.2.path with
    | error cause =>
      rw [saveEach, saveEach, hdisk, Disk.write_eq_error_iff.2 houtput]
    | ok place =>
      rw [saveEach_cons houtput, saveEach_cons (hdisk ▸ houtput)]
      apply ih
      · exact (Workspace.journal_note _ _).trans hjournal
      · exact (Workspace.journal_note _ _).trans hjournal'
      · rw [written, written, disk_noteSaved hjournal, disk_noteSaved hjournal', hdisk]

/-- Whether or not they are all saved, no directory is made or removed. -/
theorem sameDirectories_saveEach (w : Workspace) (docs : List (String × LoadedDoc)) :
    Disk.SameDirectories w.disk (saveEach w docs).1.disk := by
  induction docs generalizing w with
  | nil => exact .refl _
  | cons doc rest ih =>
    cases houtput : w.disk.locateOutput doc.2.path with
    | error cause =>
      rw [saveEach, Disk.write_eq_error_iff.2 houtput]
      exact .refl _
    | ok place =>
      rw [saveEach_cons houtput]
      exact (sameDirectories_written houtput).trans (ih _)

/-- Each place but that of the journal holds the last document that could be written there. -/
theorem lookup?_saveEach {docs : List (String × LoadedDoc)} {other : Location}
    (hother : ∀ j ∈ w.journal, j.place ≠ other) :
    (saveEach w docs).1.disk.lookup? other =
      ((lastSaved? w.disk (savable w.disk docs) other).map (·.2.entry)).or
        (w.disk.lookup? other) := by
  induction docs generalizing w with
  | nil => rfl
  | cons doc rest ih =>
    cases houtput : w.disk.locateOutput doc.2.path with
    | error cause =>
      have hstop : ¬ w.disk.isWritable doc.2.path = true := by simp [Disk.isWritable, houtput]
      rw [savable_cons, if_neg hstop, saveEach, Disk.write_eq_error_iff.2 houtput]
      rfl
    | ok place =>
      have hgo := Disk.isWritable_iff.2 ⟨place, houtput⟩
      have hsame := sameDirectories_written houtput
      have hlocate := (Disk.locateOutput_eq_ok_iff.1 houtput).2.1
      have hrest := ih (w := written w doc.2 place) hother
      rw [savable_eq_of_sameDirectories hsame, lastSaved?_eq_of_sameDirectories hsame,
        lookup?_written houtput hother] at hrest
      rw [saveEach_cons houtput, hrest, savable_cons, if_pos hgo, lastSaved?_cons, hlocate]
      by_cases hplace : other = place
      · subst hplace
        cases lastSaved? w.disk (savable w.disk rest) other <;> simp [Except.toOption]
      · have hne : ¬ some place = some other := fun heq => hplace (Option.some.inj heq).symm
        rw [if_neg hplace, Except.toOption, if_neg hne, Option.or_none]

end DocStore

namespace Session

variable (s : Session) (w : Workspace)

/-- The documents that a run has loaded when it begins to save. -/
def loadedDocs : List (String × LoadedDoc) :=
  (s.traverse w).session.store.docs.toList

/-- The documents that a run writes back. It stops at the first that cannot be written. -/
def savedDocs : List (String × LoadedDoc) :=
  DocStore.savable w.disk (s.loadedDocs w)

/-- The workspace on which a run begins to save. -/
def saving : Workspace :=
  (s.traverse w).workspace.print "saving"

theorem workspace_run : (s.run w).2.1 = (DocStore.saveEach (s.saving w) (s.loadedDocs w)).1 := rfl

theorem printed_run : (s.run w).2.1.printed = w.printed ++ ["saving"] := by
  have hsaved := (DocStore.saveEach_keeps (s.saving w) (s.loadedDocs w)).1
  have hpassed := (s.onlyNotes_traverse w).printed
  exact hsaved.trans (congrArg (· ++ ["saving"]) hpassed)

theorem journal_run : (s.run w).2.1.journal = w.journal := by
  have hsaved := (DocStore.saveEach_keeps (s.saving w) (s.loadedDocs w)).2
  exact hsaved.trans (s.onlyNotes_traverse w).journal

theorem sameDirectories_saving : Disk.SameDirectories w.disk (s.saving w).disk :=
  (s.onlyNotes_traverse w).shape.sameDirectories

/-- What a run has counted by the time that it has come to some type. -/
def Progress.finalReport (p : Progress) : RunReport :=
  { p.report with documentsSaved := p.session.store.docs.size }

theorem result_run :
    (s.run w).2.2 = (DocStore.saveEach (s.saving w) (s.loadedDocs w)).2.map
      fun _ => (s.traverse w).finalReport := by
  show ((DocStore.saveEach (s.saving w) (s.loadedDocs w)).2.map fun _ => _).map _ = _
  cases (DocStore.saveEach (s.saving w) (s.loadedDocs w)).2 <;> rfl

/-- A run that can write back all documents that it has loaded reports what it has counted. -/
theorem result_run_eq_ok {s : Session} {w : Workspace}
    (h : ∀ doc ∈ s.loadedDocs w, w.disk.isWritable doc.2.path = true) :
    (s.run w).2.2 = .ok (s.traverse w).finalReport := by
  have hsaves : ∀ doc ∈ s.loadedDocs w, (s.saving w).disk.isWritable doc.2.path = true := by
    intro doc hdoc
    rw [(s.sameDirectories_saving w).isWritable_eq, h doc hdoc]
  rw [result_run, DocStore.saveEach_eq_ok_iff.2 hsaves]
  rfl

/-- A run saves all documents that it has loaded if, and only if, they could be written before it
began. -/
theorem isOk_run_iff :
    (s.run w).2.2.isOk = true ↔ ∀ doc ∈ s.loadedDocs w, w.disk.isWritable doc.2.path = true := by
  have hsaved : (s.run w).2.2.isOk = true ↔
      (DocStore.saveEach (s.saving w) (s.loadedDocs w)).2 = .ok () := by
    rw [result_run]
    cases (DocStore.saveEach (s.saving w) (s.loadedDocs w)).2 <;>
      simp [Except.map, Except.isOk, Except.toBool]
  rw [hsaved, DocStore.saveEach_eq_ok_iff]
  simp only [(s.sameDirectories_saving w).isWritable_eq]

theorem sameDirectories_run : Disk.SameDirectories w.disk (s.run w).2.1.disk :=
  (s.sameDirectories_saving w).trans (DocStore.sameDirectories_saveEach _ _)

/-- After a run, each place but that of the journal holds the last document that was written there,
or what was there before. -/
theorem lookup?_run {place : Location} (hplace : ∀ j ∈ w.journal, j.place ≠ place) :
    (s.run w).2.1.disk.lookup? place =
      ((DocStore.lastSaved? w.disk (s.savedDocs w) place).map (·.2.entry)).or
        (w.disk.lookup? place) := by
  have hpassed := s.onlyNotes_traverse w
  have hdirectories := s.sameDirectories_saving w
  have hjournal : ∀ j ∈ (s.saving w).journal, j.place ≠ place := by
    intro j hj
    exact hplace j (hpassed.journal.symm.trans hj)
  have hkept : (s.saving w).disk.lookup? place = w.disk.lookup? place :=
    hpassed.elsewhere place hplace
  rw [workspace_run, DocStore.lookup?_saveEach hjournal, hkept,
    DocStore.savable_eq_of_sameDirectories hdirectories,
    DocStore.lastSaved?_eq_of_sameDirectories hdirectories]
  rfl

end Session

end ApiDocs
