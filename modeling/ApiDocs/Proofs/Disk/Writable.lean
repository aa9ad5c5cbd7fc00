import ApiDocs.Proofs.Disk.Writing

/-!
# Paths that can be written

Whether a path can be written depends on the directories of the disk, and on what the system refuses.
To write a file changes neither, so it leaves each path as writable as it was. Where a path leads to
is told by its names alone, if it leads anywhere.
-/

namespace ApiDocs.Disk

structure SameDirectories (d d' : Disk) : Prop where
  workingDirectory : d'.workingDirectory = d.workingDirectory
  refusal? : d'.refusal? = d.refusal?
  directory : ∀ place, d'.lookup? place = some .directory ↔ d.lookup? place = some .directory

structure SameEntries (d d' : Disk) : Prop where
  workingDirectory : d'.workingDirectory = d.workingDirectory
  refusal? : d'.refusal? = d.refusal?
  lookup?_eq : ∀ place, d'.lookup? place = d.lookup? place

/-- A file can be written at the end of the path. -/
def isWritable (d : Disk) (path : String) : Bool :=
  d.locateOutput path matches .ok _

/-- The system refuses to write where the path leads to. -/
def refuses (d : Disk) (path : String) : Bool :=
  (d.locate path).toOption.any fun place => (d.refusal? place).isSome

theorem toOption_eq_some_iff {x : Except Error Location} {place : Location} :
    x.toOption = some place ↔ x = .ok place := by
  cases x <;> simp [Except.toOption]

variable {d d' : Disk} {path : String} {place : Location}

namespace SameDirectories

theorem refl (d : Disk) : SameDirectories d d := ⟨rfl, rfl, fun _ => Iff.rfl⟩

theorem symm (h : SameDirectories d d') : SameDirectories d' d :=
  ⟨h.workingDirectory.symm, h.refusal?.symm, fun place => (h.directory place).symm⟩

theorem trans {d'' : Disk} (h : SameDirectories d d') (h' : SameDirectories d' d'') :
    SameDirectories d d'' :=
  ⟨h'.workingDirectory.trans h.workingDirectory, h'.refusal?.trans h.refusal?,
    fun place => (h'.directory place).trans (h.directory place)⟩

theorem keepsDirectories (h : SameDirectories d d') : KeepsDirectories d d' :=
  ⟨h.workingDirectory, fun place => (h.directory place).2⟩

theorem locate_eq_ok_iff (h : SameDirectories d d') :
    d'.locate path = .ok place ↔ d.locate path = .ok place :=
  ⟨h.symm.keepsDirectories.locate_eq_ok, h.keepsDirectories.locate_eq_ok⟩

theorem toOption_locate_eq (h : SameDirectories d d') (path : String) :
    (d'.locate path).toOption = (d.locate path).toOption := by
  cases hlocate : d.locate path with
  | ok place => rw [h.locate_eq_ok_iff.2 hlocate]
  | error cause =>
    cases hother : d'.locate path with
    | ok place => simp [h.locate_eq_ok_iff.1 hother] at hlocate
    | error _ => rfl

end SameDirectories

theorem sameDirectories_put (h : d.lookup? place ≠ some .directory) (content : ByteArray) :
    SameDirectories d (d.put place (.file content)) := by
  refine ⟨rfl, rfl, fun other => ?_⟩
  rw [lookup?_put_of_not_directory h]
  by_cases hother : other = place
  · simp [hother, h]
  · rw [if_neg hother]

theorem SameEntries.sameShape (h : SameEntries d d') : SameShape d d' :=
  ⟨h.workingDirectory, h.refusal?, fun place => by rw [h.lookup?_eq]⟩

theorem SameEntries.sameDirectories (h : SameEntries d d') : SameDirectories d d' :=
  ⟨h.workingDirectory, h.refusal?, fun place => by rw [h.lookup?_eq]⟩

/-! ## Where files can be written -/

theorem locateOutput_eq_ok_iff :
    d.locateOutput path = .ok place ↔
      Path.endsInSlash path = false ∧ d.locate path = .ok place ∧
        d.lookup? place ≠ some .directory ∧ d.refusal? place = none := by
  rw [locateOutput, locate]
  cases hcheck : checkPath path with
  | error cause => simp [bind, Except.bind]
  | ok _ =>
    cases hslash : Path.endsInSlash path with
    | true =>
      cases hwalk : d.walk (d.start path) (Path.directories path ++ ["."]) <;>
        simp [bind, Except.bind]
    | false =>
      cases hwalk : d.walk (d.start path) (Path.names path) with
      | error cause => simp [hwalk, bind, Except.bind]
      | ok found =>
        by_cases hplace : found = place
        · subst hplace
          rcases hfound : d.lookup? found with _ | ⟨_ | before⟩ <;>
            rcases hrefusal : d.refusal? found with _ | why <;>
            simp [hwalk, hfound, hrefusal, bind, Except.bind]
        · rcases hfound : d.lookup? found with _ | ⟨_ | before⟩ <;>
            rcases hrefusal : d.refusal? found with _ | why <;>
            simp [hwalk, hfound, hrefusal, hplace, bind, Except.bind]

theorem isWritable_iff : d.isWritable path = true ↔ ∃ place, d.locateOutput path = .ok place := by
  rw [isWritable]
  cases d.locateOutput path <;> simp

theorem SameDirectories.locateOutput_eq_ok_iff (h : SameDirectories d d') :
    d'.locateOutput path = .ok place ↔ d.locateOutput path = .ok place := by
  rw [Disk.locateOutput_eq_ok_iff, Disk.locateOutput_eq_ok_iff, h.locate_eq_ok_iff,
    ne_eq, ne_eq, h.directory, h.refusal?]

theorem SameDirectories.isWritable_eq (h : SameDirectories d d') (path : String) :
    d'.isWritable path = d.isWritable path := by
  rw [Bool.eq_iff_iff, isWritable_iff, isWritable_iff]
  simp only [h.locateOutput_eq_ok_iff]

/-- A file that is there can be written unless the system refuses it. -/
theorem isWritable_of_isFile (h : d.isFile path = true) : d.isWritable path = !d.refuses path := by
  obtain ⟨place, content, hlocate, hfile⟩ := isFile_iff.1 h
  have hslash := endsInSlash_of_isFile hlocate hfile
  rw [Bool.eq_iff_iff, isWritable_iff]
  simp [locateOutput_eq_ok_iff, refuses, hslash, hlocate, hfile, Except.toOption]

theorem write_of_locateOutput (h : d.locateOutput path = .ok place) (content : ByteArray) :
    d.write path content = .ok (d.put place (.file content)) := by
  simp [write, h, bind, Except.bind, pure, Except.pure]

theorem write_eq_error_iff {content : ByteArray} {cause : Error} :
    d.write path content = .error cause ↔ d.locateOutput path = .error cause := by
  rw [write]
  cases d.locateOutput path <;> simp [bind, Except.bind, pure, Except.pure]

theorem SameShape.locateOutput_eq (h : SameShape d d') (path : String) :
    d'.locateOutput path = d.locateOutput path := by
  simp only [locateOutput, start, h.workingDirectory, h.refusal?, h.walk_eq]
  cases checkPath path with
  | error cause => rfl
  | ok _ =>
    simp only [bind, Except.bind]
    split
    · rfl
    · cases d.walk (if Path.isAbsolute path = true then [] else d.workingDirectory)
        (Path.names path) with
      | error cause => rfl
      | ok place =>
        rcases h.lookup?_or place with ⟨hd, hd'⟩ | ⟨hd, hd'⟩ | ⟨_, _, hd, hd'⟩ <;>
          simp only [hd, hd']

/-! ## Where paths lead to -/

/-- The place that a name leads to from a directory. -/
def towards (place : Location) (name : String) : Location :=
  if name = "." then place else if name = ".." then place.tail else name :: place

theorem walk_towards {start target : Location} {name : String} {rest : List String}
    (h : d.walk start (name :: rest) = .ok target) :
    d.walk (towards start name) rest = .ok target := by
  rw [walk] at h
  rcases hstart : d.lookup? start with _ | ⟨_ | content⟩
  · simp [hstart] at h
  · simp only [hstart] at h
    unfold towards
    split at h
    · next hhere => rwa [if_pos hhere]
    · next hhere =>
      split at h
      · next hup => rwa [if_neg hhere, if_pos hup]
      · next hup =>
        split at h
        · cases h
        · rwa [if_neg hhere, if_neg hup]
  · simp [hstart] at h

theorem foldl_towards {names : List String} (h : ∀ name ∈ names, Path.isStep name = false)
    (place : Location) : names.foldl towards place = names.reverse ++ place := by
  induction names generalizing place with
  | nil => rfl
  | cons name rest ih =>
    obtain ⟨hname, hrest⟩ := List.forall_mem_cons.1 h
    have hin : towards place name = name :: place := by
      simp only [Path.isStep, Bool.or_eq_false_iff, decide_eq_false_iff_not] at hname
      rw [towards, if_neg hname.1, if_neg hname.2]
    rw [List.foldl_cons, hin, ih hrest, List.reverse_cons, List.append_assoc]
    rfl

/-- Names that lead anywhere lead to the place that they tell by themselves. -/
theorem eq_foldl_of_walk {start target : Location} {names : List String}
    (h : d.walk start names = .ok target) : target = names.foldl towards start := by
  induction names generalizing start with
  | nil => exact (Except.ok.inj h).symm
  | cons name rest ih => exact ih (walk_towards h)

theorem eq_foldl_of_locate (h : d.locate path = .ok place) :
    place = (Path.names path).foldl towards (d.start path) := by
  rw [locate] at h
  cases hcheck : checkPath path with
  | error cause => simp [hcheck, bind, Except.bind] at h
  | ok _ =>
    simp only [hcheck, bind, Except.bind] at h
    rw [eq_foldl_of_walk h, List.foldl_append]
    split <;> rfl

/-- A path leads to one place only, whatever disk it is followed on. -/
theorem locate_unique (hdirectory : d'.workingDirectory = d.workingDirectory) {other : Location}
    (h : d.locate path = .ok place) (h' : d'.locate path = .ok other) : other = place := by
  rw [eq_foldl_of_locate h, eq_foldl_of_locate h', start, start, hdirectory]

end ApiDocs.Disk
