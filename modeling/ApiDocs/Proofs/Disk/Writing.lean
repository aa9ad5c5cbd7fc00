import ApiDocs.Proofs.Disk.SameShape

/-!
# Writing files

A file is written where its path leads to, if no directory is there and the system does not refuse
it; it may be new. No directory is lost by that, so a path that has led to a place leads there
afterwards.
-/

namespace ApiDocs.Disk

/-- The directories of the first disk are there on the second, too. -/
structure KeepsDirectories (d d' : Disk) : Prop where
  workingDirectory : d'.workingDirectory = d.workingDirectory
  directory : ∀ place, d.lookup? place = some .directory → d'.lookup? place = some .directory

namespace KeepsDirectories

theorem refl (d : Disk) : KeepsDirectories d d := ⟨rfl, fun _ => id⟩

theorem trans {d d' d'' : Disk} (h : KeepsDirectories d d') (h' : KeepsDirectories d' d'') :
    KeepsDirectories d d'' :=
  ⟨h'.workingDirectory.trans h.workingDirectory,
    fun place hplace => h'.directory place (h.directory place hplace)⟩

variable {d d' : Disk}

theorem walk_eq_ok (h : KeepsDirectories d d') {place target : Location} {names : List String}
    (hwalk : d.walk place names = .ok target) : d'.walk place names = .ok target := by
  induction names generalizing place with
  | nil => exact hwalk
  | cons name rest ih =>
    rw [walk] at hwalk ⊢
    rcases hplace : d.lookup? place with _ | ⟨_ | content⟩
    · simp [hplace] at hwalk
    · -- a name is followed from a directory only, and that is kept
      rw [h.directory place hplace]
      simp only [hplace] at hwalk ⊢
      by_cases hhere : name = "."
      · rw [if_pos hhere] at hwalk ⊢
        exact ih hwalk
      · rw [if_neg hhere] at hwalk ⊢
        by_cases hup : name = ".."
        · rw [if_pos hup] at hwalk ⊢
          exact ih hwalk
        · rw [if_neg hup] at hwalk ⊢
          by_cases hlong : name.utf8ByteSize > maxName
          · rw [if_pos hlong] at hwalk
            cases hwalk
          · rw [if_neg hlong] at hwalk ⊢
            exact ih hwalk
    · simp [hplace] at hwalk

theorem locate_eq_ok (h : KeepsDirectories d d') {path : String} {place : Location}
    (hlocate : d.locate path = .ok place) : d'.locate path = .ok place := by
  have hstart : d'.start path = d.start path := by rw [start, start, h.workingDirectory]
  rw [locate] at hlocate ⊢
  cases hcheck : checkPath path with
  | error cause => simp [hcheck, bind, Except.bind] at hlocate
  | ok _ =>
    simp only [hcheck, bind, Except.bind] at hlocate ⊢
    rw [hstart]
    exact h.walk_eq_ok hlocate

end KeepsDirectories

variable {d : Disk}

theorem keepsDirectories_put {place : Location} (h : d.lookup? place ≠ some .directory)
    (entry : Entry) : KeepsDirectories d (d.put place entry) := by
  refine ⟨rfl, fun other hother => ?_⟩
  have hne : other ≠ place := by
    intro heq
    exact h (heq ▸ hother)
  rw [lookup?_put_of_not_directory h, if_neg hne, hother]

/-- A file that is written is put where its path leads to, and nothing else changes. -/
theorem write_eq_ok {path : String} {content : ByteArray} {d' : Disk}
    (h : d.write path content = .ok d') :
    ∃ place, d.locate path = .ok place ∧ d.lookup? place ≠ some .directory ∧
      d' = d.put place (.file content) := by
  rw [write, locateOutput] at h
  rw [locate]
  cases hcheck : checkPath path with
  | error cause => simp [hcheck, bind, Except.bind] at h
  | ok _ =>
    cases hslash : Path.endsInSlash path with
    | true =>
      -- such a path is refused, wherever it leads to
      cases hwalk : d.walk (d.start path) (Path.directories path ++ ["."]) <;>
        simp [hcheck, hslash, hwalk, bind, Except.bind] at h
    | false =>
      cases hwalk : d.walk (d.start path) (Path.names path) with
      | error cause => simp [hcheck, hslash, hwalk, bind, Except.bind] at h
      | ok place =>
        refine ⟨place, by simp [hwalk, bind, Except.bind], ?_⟩
        rcases hplace : d.lookup? place with _ | ⟨_ | before⟩ <;>
          rcases hrefusal : d.refusal? place with _ | why <;>
          simp_all [bind, Except.bind, pure, Except.pure]

end ApiDocs.Disk
