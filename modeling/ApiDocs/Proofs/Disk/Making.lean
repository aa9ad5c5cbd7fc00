import ApiDocs.Proofs.Disk.Writable

/-!
# Making directories

Directories are made only where nothing was, and only at places that are passed on the way to the
innermost of them. Those around it stay if it cannot be made itself. A file that is opened for
appending is new, or stays as it was.
-/

namespace ApiDocs.Disk

/-- Names that are followed from `start` on lead to the place, or past it. -/
def PassedBy (start : Location) (names : List String) (place : Location) : Prop :=
  ∃ front, front <+: names ∧ front.foldl towards start = place

/-- The place is passed on the way to the directory that holds the last name of a path. -/
def IsAround (d : Disk) (path : String) (place : Location) : Prop :=
  PassedBy (d.start path) (Path.names (Path.parent path)) place

/-- Directories have been made where nothing was, at some of these places. -/
structure AddsDirectories (places : Location → Prop) (d d' : Disk) : Prop where
  workingDirectory : d'.workingDirectory = d.workingDirectory
  refusal? : d'.refusal? = d.refusal?
  lookup?_or : ∀ place, d'.lookup? place = d.lookup? place ∨
    places place ∧ d.lookup? place = none ∧ d'.lookup? place = some .directory

namespace AddsDirectories

variable {places others : Location → Prop} {d d' d'' : Disk}

theorem refl (places : Location → Prop) (d : Disk) : AddsDirectories places d d :=
  ⟨rfl, rfl, fun _ => .inl rfl⟩

theorem trans (h : AddsDirectories places d d') (h' : AddsDirectories places d' d'') :
    AddsDirectories places d d'' := by
  refine ⟨h'.workingDirectory.trans h.workingDirectory, h'.refusal?.trans h.refusal?,
    fun place => ?_⟩
  rcases h'.lookup?_or place with hsame' | ⟨hplace, hnone, hmade⟩
  · rw [hsame']
    exact h.lookup?_or place
  · rcases h.lookup?_or place with hsame | ⟨-, -, hbefore⟩
    · exact .inr ⟨hplace, hsame.symm.trans hnone, hmade⟩
    · rw [hnone] at hbefore
      cases hbefore

theorem mono (h : AddsDirectories places d d') (hplaces : ∀ place, places place → others place) :
    AddsDirectories others d d' := by
  refine ⟨h.workingDirectory, h.refusal?, fun place => ?_⟩
  apply (h.lookup?_or place).imp_right
  rintro ⟨hplace, hmade⟩
  exact ⟨hplaces place hplace, hmade⟩

end AddsDirectories

variable {d d' : Disk} {path : String} {start place : Location} {names : List String}

theorem addsDirectories_put {places : Location → Prop} (hplace : places place)
    (h : d.lookup? place = none) : AddsDirectories places d (d.put place .directory) := by
  refine ⟨rfl, rfl, fun other => ?_⟩
  rw [lookup?_put_of_not_directory (by simp [h])]
  by_cases hother : other = place
  · subst hother
    exact .inr ⟨hplace, h, if_pos rfl⟩
  · exact .inl (if_neg hother)

theorem addsDirectories_makeDirectory (h : d.makeDirectory start names = .ok d') :
    AddsDirectories (PassedBy start names.reverse) d d' := by
  cases names with
  | nil => cases h
  | cons name outer =>
    rw [makeDirectory] at h
    cases hwalk : d.walk start (name :: outer).reverse with
    | error cause =>
      rw [hwalk] at h
      cases h
    | ok target =>
      simp only [hwalk, bind, Except.bind] at h
      cases htarget : d.lookup? target with
      | some entry => simp [htarget] at h
      | none =>
        cases hrefusal : d.refusal? target with
        | some why => simp [htarget, hrefusal] at h
        | none =>
          simp only [htarget, hrefusal, Except.ok.injEq] at h
          subst h
          exact addsDirectories_put ⟨_, List.prefix_rfl, (eq_foldl_of_walk hwalk).symm⟩ htarget

theorem passedBy_reverse_cons {name : String} {outer : List String}
    (h : PassedBy start outer.reverse place) : PassedBy start (name :: outer).reverse place := by
  obtain ⟨front, hfront, hplace⟩ := h
  rw [List.reverse_cons]
  exact ⟨front, hfront.trans (List.prefix_append _ _), hplace⟩

theorem addsDirectories_makeDirectories (names : List String) :
    AddsDirectories (PassedBy start names.reverse) d (d.makeDirectories start names).1 := by
  induction names with
  | nil => exact .refl _ d
  | cons name outer ih =>
    have houter : AddsDirectories (PassedBy start (name :: outer).reverse) d
        (d.makeDirectories start outer).1 :=
      ih.mono fun _ => passedBy_reverse_cons
    rw [makeDirectories]
    split
    · next made hmade => exact addsDirectories_makeDirectory hmade
    · split
      · next around cause heq => rwa [heq] at houter
      · next around heq =>
        rw [heq] at houter
        split
        · next made hmade => exact houter.trans (addsDirectories_makeDirectory hmade)
        · split
          · exact houter
          · exact houter
    · split
      · exact .refl _ d
      · exact .refl _ d

/-- A name that stays in its directory can be left out. -/
theorem passedBy_of_filter (h : PassedBy start (names.filter (· ≠ ".")) place) :
    PassedBy start names place := by
  obtain ⟨front, hfront, hplace⟩ := h
  obtain ⟨whole, hwhole, rfl⟩ := List.prefix_filter_iff.1 hfront
  refine ⟨whole, hwhole, ?_⟩
  rw [← hplace, List.foldl_filter]
  congr 1
  funext before name
  by_cases hstays : name = "."
  · simp [hstays, towards]
  · simp [hstays]

theorem addsDirectories_makeParents (d : Disk) (path : String) :
    AddsDirectories (d.IsAround path) d (d.makeParents path).1 := by
  rw [makeParents]
  split
  · exact .refl _ d
  · split
    · exact .refl _ d
    · let names := (Path.names (Path.parent path)).filter (· ≠ ".")
      have hmade : AddsDirectories (PassedBy (d.start path) names.reverse.reverse) d
          (d.makeDirectories (d.start path) names.reverse).1 :=
        addsDirectories_makeDirectories names.reverse
      rw [List.reverse_reverse] at hmade
      exact hmade.mono fun _ => passedBy_of_filter

/-! ## Files that are appended to -/

/-- The file at the end of the path is open on `d'`. It is new, or it is as it was. -/
structure OpensFile (path : String) (place : Location) (d d' : Disk) : Prop where
  locate : d'.locate path = .ok place
  notDirectory : d.lookup? place ≠ some .directory
  file : ∃ content, d'.lookup? place = some (.file content)
  directories : SameDirectories d d'
  elsewhere : ∀ other, other ≠ place → d'.lookup? other = d.lookup? other

theorem opensFile_of_file (houtput : d.locateOutput path = .ok place) {content : ByteArray}
    (hfile : d.lookup? place = some (.file content)) : OpensFile path place d d := by
  obtain ⟨-, hlocate, hfree, -⟩ := locateOutput_eq_ok_iff.1 houtput
  exact ⟨hlocate, hfree, ⟨content, hfile⟩, .refl d, fun _ _ => rfl⟩

theorem opensFile_put (houtput : d.locateOutput path = .ok place) (content : ByteArray) :
    OpensFile path place d (d.put place (.file content)) := by
  obtain ⟨-, hlocate, hfree, -⟩ := locateOutput_eq_ok_iff.1 houtput
  have hsame := sameDirectories_put hfree content
  have hlookup := lookup?_put_of_not_directory hfree (.file content)
  constructor
  case locate => exact hsame.locate_eq_ok_iff.2 hlocate
  case notDirectory => exact hfree
  case file => exact ⟨content, (hlookup place).trans (if_pos rfl)⟩
  case directories => exact hsame
  case elsewhere =>
    intro other hother
    rw [hlookup, if_neg hother]

theorem opensFile_of_openToAppend (h : d.openToAppend path = .ok (place, d')) :
    OpensFile path place d d' := by
  rw [openToAppend] at h
  cases houtput : d.locateOutput path with
  | error cause => simp [houtput, bind, Except.bind] at h
  | ok target =>
    simp only [houtput, bind, Except.bind, pure, Except.pure] at h
    have hfree := (locateOutput_eq_ok_iff.1 houtput).2.2.1
    rcases htarget : d.lookup? target with _ | ⟨_ | content⟩
    · simp only [htarget, Except.ok.injEq, Prod.mk.injEq] at h
      obtain ⟨rfl, rfl⟩ := h
      exact opensFile_put houtput .empty
    · exact absurd htarget hfree
    · simp only [htarget, Except.ok.injEq, Prod.mk.injEq] at h
      obtain ⟨rfl, rfl⟩ := h
      exact opensFile_of_file houtput htarget

end ApiDocs.Disk
