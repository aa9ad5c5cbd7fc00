import ApiDocs.Disk.Basic

/-!
# Disks of the same shape

Two disks have the same shape if they hold directories and files at the same places, and the system
refuses to write to the same of them. Paths lead to the same places on both, since following a path
only looks at what is a directory. To write over a file keeps the shape, and changes nothing at other
places.
-/

namespace ApiDocs.Disk

/-- The place holds a directory, and no file. -/
def Entry.isDirectory : Entry → Bool
  | .directory => true
  | .file _ => false

/-- Directories and files are at the same places, and may be written to at the same ones. -/
structure SameShape (d d' : Disk) : Prop where
  workingDirectory : d'.workingDirectory = d.workingDirectory
  refusal? : d'.refusal? = d.refusal?
  isDirectory : ∀ place,
    (d'.lookup? place).map Entry.isDirectory = (d.lookup? place).map Entry.isDirectory

namespace SameShape

theorem refl (d : Disk) : SameShape d d := ⟨rfl, rfl, fun _ => rfl⟩

theorem trans {d d' d'' : Disk} (h : SameShape d d') (h' : SameShape d' d'') : SameShape d d'' :=
  ⟨h'.workingDirectory.trans h.workingDirectory, h'.refusal?.trans h.refusal?,
    fun place => (h'.isDirectory place).trans (h.isDirectory place)⟩

variable {d d' : Disk}

theorem lookup?_or (h : SameShape d d') (place : Location) :
    (d.lookup? place = none ∧ d'.lookup? place = none) ∨
      (d.lookup? place = some .directory ∧ d'.lookup? place = some .directory) ∨
      ∃ content content',
        d.lookup? place = some (.file content) ∧ d'.lookup? place = some (.file content') := by
  have hplace := h.isDirectory place
  rcases hd : d.lookup? place with _ | ⟨_ | content⟩ <;>
    rcases hd' : d'.lookup? place with _ | ⟨_ | content'⟩ <;>
    simp_all [Entry.isDirectory]

theorem walk_eq (h : SameShape d d') (place : Location) (names : List String) :
    d'.walk place names = d.walk place names := by
  induction names generalizing place with
  | nil => rfl
  | cons name rest ih =>
    rw [walk, walk]
    rcases h.lookup?_or place with ⟨hd, hd'⟩ | ⟨hd, hd'⟩ | ⟨_, _, hd, hd'⟩
    · rw [hd, hd']
    · simp only [hd, hd', ih]
    · rw [hd, hd']

theorem locate_eq (h : SameShape d d') (path : String) : d'.locate path = d.locate path := by
  simp only [locate, start, h.workingDirectory, h.walk_eq]

theorem isFile_eq (h : SameShape d d') (path : String) : d'.isFile path = d.isFile path := by
  rw [isFile, isFile, find, find, h.locate_eq]
  cases d.locate path with
  | error cause => rfl
  | ok place =>
    simp only [bind, Except.bind]
    rcases h.lookup?_or place with ⟨hd, hd'⟩ | ⟨hd, hd'⟩ | ⟨_, _, hd, hd'⟩ <;> rw [hd, hd']

theorem find_eq (h : SameShape d d') {path : String}
    (hplace : ∀ place, d.locate path = .ok place → d'.lookup? place = d.lookup? place) :
    d'.find path = d.find path := by
  rw [find, find, h.locate_eq]
  cases hlocate : d.locate path with
  | error cause => rfl
  | ok place => simp only [bind, Except.bind, hplace place hlocate]

end SameShape

/-! ## Writing over files -/

variable {d : Disk} {path : String}

theorem isFile_iff :
    d.isFile path = true ↔
      ∃ place content, d.locate path = .ok place ∧ d.lookup? place = some (.file content) := by
  rw [isFile, find]
  cases hlocate : d.locate path with
  | error cause => simp [bind, Except.bind]
  | ok place =>
    simp only [bind, Except.bind, Except.ok.injEq, exists_and_left, exists_eq_left']
    rcases d.lookup? place with _ | ⟨_ | content⟩ <;> simp

theorem walk_append (place : Location) (names others : List String) :
    d.walk place (names ++ others) = (d.walk place names).bind (d.walk · others) := by
  induction names generalizing place with
  | nil => rfl
  | cons name rest ih =>
    rw [List.cons_append, walk, walk]
    rcases d.lookup? place with _ | ⟨_ | content⟩
    · rfl
    · simp only [ih]
      split
      · rfl
      · split
        · rfl
        · split <;> rfl
    · rfl

/-- A path to a file does not say that it leads to a directory. -/
theorem endsInSlash_of_isFile {place : Location} {content : ByteArray}
    (hlocate : d.locate path = .ok place) (hfile : d.lookup? place = some (.file content)) :
    Path.endsInSlash path = false := by
  cases hslash : Path.endsInSlash path with
  | false => rfl
  | true =>
    rw [locate, hslash, if_pos rfl, walk_append] at hlocate
    cases hcheck : checkPath path with
    | error cause => simp [hcheck, bind, Except.bind] at hlocate
    | ok _ =>
      cases hwalk : d.walk (d.start path) (Path.names path) with
      | error cause => simp [hcheck, hwalk, bind, Except.bind] at hlocate
      | ok before =>
        -- the step to the directory itself is taken only from a directory
        simp only [hcheck, hwalk, bind, Except.bind, walk] at hlocate
        rcases hbefore : d.lookup? before with _ | ⟨_ | inside⟩
        · simp [hbefore] at hlocate
        · simp only [hbefore, if_true, Except.ok.injEq] at hlocate
          rw [hlocate, hfile] at hbefore
          cases hbefore
        · simp [hbefore] at hlocate

theorem lookup?_put_of_not_directory {place : Location} (h : d.lookup? place ≠ some .directory)
    (entry : Entry) (other : Location) :
    (d.put place entry).lookup? other = if other = place then some entry else d.lookup? other := by
  have hne : place ≠ [] := by
    rintro rfl
    exact h rfl
  rw [lookup?_put]
  by_cases hother : other = place <;> simp [hother, hne]

theorem lookup?_put_file {place : Location} {before : ByteArray}
    (hfile : d.lookup? place = some (.file before)) (entry : Entry) (other : Location) :
    (d.put place entry).lookup? other = if other = place then some entry else d.lookup? other :=
  lookup?_put_of_not_directory (by simp [hfile]) entry other

theorem sameShape_put {place : Location} {before : ByteArray}
    (hfile : d.lookup? place = some (.file before)) (content : ByteArray) :
    SameShape d (d.put place (.file content)) where
  workingDirectory := rfl
  refusal? := rfl
  isDirectory other := by
    rw [lookup?_put_file hfile]
    by_cases h : other = place
    · rw [if_pos h, h, hfile]
      rfl
    · rw [if_neg h]

end ApiDocs.Disk
