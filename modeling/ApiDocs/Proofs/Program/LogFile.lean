import ApiDocs.Program
import ApiDocs.Proofs.Disk.Making
import ApiDocs.Proofs.Session.Journaling

/-!
# What a journal leaves on the disk

To open a journal makes its file and the directories around it, where they are missing. Notices are
written to that file only, so nothing else on the disk differs as long as nothing but notices is given.
-/

namespace ApiDocs

namespace Disk

/-- The place is the file at the end of the path, which was made or appended to. -/
structure IsLog (path : String) (d d' : Disk) (place : Location) : Prop where
  locate : d'.locate path = .ok place
  notDirectory : d.lookup? place ≠ some .directory
  file : ∃ content, d'.lookup? place = some (.file content)

/-- Nothing differs but the log file, if there is one, and the directories made around it. -/
structure SparesAllBut (logFile : Option String) (d d' : Disk) : Prop where
  workingDirectory : d'.workingDirectory = d.workingDirectory
  refusal? : d'.refusal? = d.refusal?
  lookup?_or : ∀ place, d'.lookup? place = d.lookup? place ∨ ∃ path, logFile = some path ∧
    (IsLog path d d' place ∨
      d.IsAround path place ∧ d.lookup? place = none ∧ d'.lookup? place = some .directory)

theorem SparesAllBut.refl (logFile : Option String) (d : Disk) : SparesAllBut logFile d d :=
  ⟨rfl, rfl, fun _ => .inl rfl⟩

theorem AddsDirectories.sparesAllBut {path : String} {d d' : Disk}
    (h : AddsDirectories (d.IsAround path) d d') : SparesAllBut (some path) d d' := by
  refine ⟨h.workingDirectory, h.refusal?, fun place => ?_⟩
  apply (h.lookup?_or place).imp_right
  intro hmade
  exact ⟨path, rfl, .inr hmade⟩

end Disk

open Disk Workspace

namespace Program

/-- The journal has been opened, or an attempt to open it has failed. -/
structure Opens (logFile : Option String) (d opened : Disk)
    (result : Except Disk.Error (Option Journal)) : Prop where
  spares : SparesAllBut logFile d opened
  isLog : ∀ j, result = .ok (some j) → ∃ path, logFile = some path ∧ IsLog path d opened j.place

/-- To open a file whose directory was made changes nothing else. -/
theorem opens_of_openToAppend {path : String} {d around opened : Disk} {j : Journal}
    (hmade : AddsDirectories (d.IsAround path) d around)
    (hopen : around.openToAppend path = .ok (j.place, opened)) :
    Opens (some path) d opened (.ok (some j)) := by
  have hopened := opensFile_of_openToAppend hopen
  have hlog : IsLog path d opened j.place := by
    refine ⟨hopened.locate, fun hbefore => hopened.notDirectory ?_, hopened.file⟩
    rcases hmade.lookup?_or j.place with hkept | ⟨-, -, hnew⟩
    · rw [hkept, hbefore]
    · exact hnew
  constructor
  case isLog =>
    rintro _ ⟨rfl⟩
    exact ⟨path, rfl, hlog⟩
  case spares =>
    refine ⟨hopened.directories.workingDirectory.trans hmade.workingDirectory,
      hopened.directories.refusal?.trans hmade.refusal?, fun place => ?_⟩
    by_cases hplace : place = j.place
    · subst hplace
      exact .inr ⟨path, rfl, .inl hlog⟩
    · rw [hopened.elsewhere place hplace]
      apply (hmade.lookup?_or place).imp_right
      intro hnew
      exact ⟨path, rfl, .inr hnew⟩

theorem opens_openJournal (stamp : String) (c : Config) (d : Disk) :
    Opens c.logFile d (openJournal stamp c d).1 (openJournal stamp c d).2 := by
  rw [openJournal]
  cases c.logFile with
  | none => exact ⟨.refl _ d, fun j hj => by cases hj⟩
  | some path =>
    have hmade := addsDirectories_makeParents d path
    simp only
    generalize d.makeParents path = made at hmade
    obtain ⟨around, cause | ⟨⟩⟩ := made
    · exact ⟨hmade.sparesAllBut, fun j hj => by cases hj⟩
    · simp only
      cases hopen : around.openToAppend path with
      | error cause => exact ⟨hmade.sparesAllBut, fun j hj => by cases hj⟩
      | ok opened => exact opens_of_openToAppend hmade hopen

variable {logFile : Option String} {d opened : Disk} {journal : Option Journal}

/-- Notices are written to the log file, so nothing more than before may differ. -/
theorem Opens.spares_of_onlyNotes (h : Opens logFile d opened (.ok journal)) {after : Workspace}
    (hnotes : OnlyNotes { disk := opened, journal } after) :
    SparesAllBut logFile d after.disk := by
  have hlog : ∀ path place, IsLog path d opened place → IsLog path d after.disk place := by
    intro path place hlog
    obtain ⟨content, hfile⟩ := hlog.file
    refine ⟨(hnotes.shape.locate_eq path).trans hlog.locate, hlog.notDirectory, ?_⟩
    have hkept := hnotes.shape.lookup?_or place
    simpa [hfile] using hkept
  refine ⟨hnotes.shape.workingDirectory.trans h.spares.workingDirectory,
    hnotes.shape.refusal?.trans h.spares.refusal?, fun place => ?_⟩
  by_cases hplace : ∃ j, journal = some j ∧ j.place = place
  · obtain ⟨j, rfl, rfl⟩ := hplace
    obtain ⟨path, hpath, hfile⟩ := h.isLog j rfl
    exact .inr ⟨path, hpath, .inl (hlog path j.place hfile)⟩
  · have hsame : after.disk.lookup? place = opened.lookup? place :=
      hnotes.elsewhere place fun j hj heq => hplace ⟨j, hj, heq⟩
    rcases h.spares.lookup?_or place with hkept | ⟨path, hpath, hfile | hmade⟩
    · exact .inl (hsame.trans hkept)
    · exact .inr ⟨path, hpath, .inl (hlog path place hfile)⟩
    · rw [hsame]
      exact .inr ⟨path, hpath, .inr hmade⟩

end Program

end ApiDocs
