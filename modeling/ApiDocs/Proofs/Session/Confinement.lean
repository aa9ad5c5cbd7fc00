import ApiDocs.Proofs.Disk.Names
import ApiDocs.Proofs.Disk.Writable
import ApiDocs.Proofs.Session.Footprint

/-!
# Where a run writes

The file of a type is found by following its namespace and its name from the directory for the
language. Neither is looked at before: the file is beneath that directory if the names lead inward,
that is, if they never step out of where they started, and nothing keeps other names from leading
anywhere on the disk. So what a run changes is beneath the directory, or is the file of a type that
leads out of it.
-/

namespace ApiDocs

namespace Path

/-- Followed from `depth` names beneath a directory, the names never lead out of it, and they end
beneath it. -/
def leadInward (depth : Nat) : List String → Bool
  | [] => decide (0 < depth)
  | name :: rest =>
    if name = "." then leadInward depth rest
    else if name = ".." then decide (0 < depth) && leadInward (depth - 1) rest
    else leadInward (depth + 1) rest

end Path

namespace Disk

instance decidableEqEntry : DecidableEq Entry
  | .directory, .directory => isTrue rfl
  | .file content, .file other =>
    decidable_of_iff (content.data = other.data) (by rw [Entry.file.injEq, ByteArray.ext_iff])
  | .directory, .file _ => isFalse nofun
  | .file _, .directory => isFalse nofun

/-- The place that the names of a path tell, with every step between directories taken. -/
def resolve (d : Disk) (path : String) : Location :=
  (Path.names path).foldl towards (d.start path)

/-- The place is inside the directory, at whatever depth. -/
def IsBeneath (directory place : Location) : Prop :=
  directory <:+ place ∧ directory ≠ place

instance (directory place : Location) : Decidable (IsBeneath directory place) :=
  inferInstanceAs (Decidable (_ ∧ _))

theorem isBeneath_append {inner : Location} (h : inner ≠ []) (directory : Location) :
    IsBeneath directory (inner ++ directory) := by
  refine ⟨List.suffix_append inner directory, ?_⟩
  intro heq
  exact h (List.self_eq_append_left.1 heq)

/-- The depth that is counted along the names is that of the place they have come to. -/
theorem isBeneath_foldl_towards {names : List String} (inner : Location)
    (h : Path.leadInward inner.length names = true) (directory : Location) :
    IsBeneath directory (names.foldl towards (inner ++ directory)) := by
  induction names generalizing inner with
  | nil =>
    have hdeep : 0 < inner.length := by simpa [Path.leadInward] using h
    exact isBeneath_append (List.length_pos_iff.1 hdeep) directory
  | cons name rest ih =>
    rw [List.foldl_cons]
    rw [Path.leadInward] at h
    by_cases hhere : name = "."
    · rw [if_pos hhere] at h
      rw [towards, if_pos hhere]
      exact ih inner h
    · rw [if_neg hhere] at h
      rw [towards, if_neg hhere]
      by_cases hup : name = ".."
      · rw [if_pos hup] at h ⊢
        obtain ⟨hdeep, hrest⟩ := Bool.and_eq_true_iff.1 h
        rcases inner with _ | ⟨last, inner⟩
        · simp at hdeep
        · exact ih inner hrest
      · rw [if_neg hup] at h ⊢
        exact ih (name :: inner) h

variable {d : Disk} {path : String} {place : Location}

theorem eq_resolve_of_locate (h : d.locate path = .ok place) : place = d.resolve path :=
  eq_foldl_of_locate h

theorem resolve_join (h : Path.isAbsolute path = false) (base : String) :
    d.resolve (Path.join base path) = (Path.names path).foldl towards (d.resolve base) := by
  have hstart : d.start (Path.join base path) = d.start base := by
    rw [start, start, Path.isAbsolute_join h]
  rw [resolve, resolve, hstart, Path.names_join h, List.foldl_append]

end Disk

namespace ApiType

/-- The namespace and the name lead from a directory to a file beneath it. -/
structure LeadsInward (t : ApiType) : Prop where
  nameSpace : Path.isAbsolute t.nameSpace = false
  file : Path.isAbsolute (t.name ++ ".xml") = false
  names : Path.leadInward 0 (Path.names t.nameSpace ++ Path.names (t.name ++ ".xml")) = true

instance (t : ApiType) : Decidable t.LeadsInward :=
  decidable_of_iff (Path.isAbsolute t.nameSpace = false ∧ Path.isAbsolute (t.name ++ ".xml") = false ∧
    Path.leadInward 0 (Path.names t.nameSpace ++ Path.names (t.name ++ ".xml")) = true)
    ⟨fun ⟨hspace, hfile, hnames⟩ => ⟨hspace, hfile, hnames⟩,
      fun ⟨hspace, hfile, hnames⟩ => ⟨hspace, hfile, hnames⟩⟩

end ApiType

namespace DocStore

theorem isBeneath_path {t : ApiType} (h : t.LeadsInward) (s : DocStore) (d : Disk) :
    Disk.IsBeneath (d.resolve s.root) (d.resolve (s.path t)) := by
  rw [path, Disk.resolve_join h.file, Disk.resolve_join h.nameSpace, ← List.foldl_append]
  exact Disk.isBeneath_foldl_towards [] h.names (d.resolve s.root)

end DocStore

namespace Session

/-- The place was reached on a way that leads out of the directory for the language: it is the file of
a loaded type with such names. -/
def ReachedOutward (s : Session) (d : Disk) (place : Location) : Prop :=
  ∃ job ∈ s.asked, s.Loads d job ∧ ¬ job.1.LeadsInward ∧ d.locate (s.store.path job.1) = .ok place

theorem Footprint.confined {s : Session} {d after : Disk} (h : s.Footprint d after)
    {place : Location} (hchanged : after.lookup? place ≠ d.lookup? place) :
    Disk.IsBeneath (d.resolve s.store.root) place ∨ s.ReachedOutward d place := by
  obtain ⟨job, hasked, hloads, hlocate⟩ := h.written place hchanged
  by_cases hinward : job.1.LeadsInward
  · left
    rw [Disk.eq_resolve_of_locate hlocate]
    exact DocStore.isBeneath_path hinward s.store d
  · right
    exact ⟨job, hasked, hloads, hinward, hlocate⟩

end Session

/-- All that a run changes is beneath the directory for the language, but for the files of types
that lead out of it. -/
theorem runConfig_confined (c : Config) (catalog : Catalog) (d : Disk) {place : Location}
    (hchanged : (runConfig c catalog { disk := d }).1.disk.lookup? place ≠ d.lookup? place) :
    Disk.IsBeneath (d.resolve c.languageRoot) place ∨
      (Session.ofConfig c catalog).ReachedOutward d place :=
  (runConfig_footprint c catalog d).confined hchanged

/-- A namespace that goes down, up again and down elsewhere. -/
theorem runConfig_confined_detour :
    let d : Disk := (({} : Disk).placeFile "docs/en/B/T.xml" "<Type></Type>".toUTF8).placeDirectory
      "docs/en/A"
    let t : ApiType := { nameSpace := "A/../B", name := "T", binding := some {} }
    let catalog : Catalog := ⟨#[t], Std.ExtTreeMap.empty.insert t.fullName 0⟩
    let c : Config := { metadataPath := "m", docsRoot := "docs" }
    let place : Location := ["T.xml", "B", "en", "docs"]
    (runConfig c catalog { disk := d }).1.disk.lookup? place ≠ d.lookup? place ∧
      t.LeadsInward ∧ Disk.IsBeneath (d.resolve c.languageRoot) place := by
  intro d t catalog c place
  have hchanged : (runConfig c catalog { disk := d }).1.disk.lookup? place ≠ d.lookup? place := by
    decide +kernel
  have hinward : t.LeadsInward := by decide
  refine ⟨hchanged, hinward, (runConfig_confined c catalog d hchanged).resolve_right ?_⟩
  rintro ⟨job, hasked, -, houtward, -⟩
  have hjob : (Session.ofConfig c catalog).asked = [(t, {})] := by decide
  rw [hjob, List.mem_singleton] at hasked
  exact houtward (hasked ▸ hinward)

/-- A namespace that leads upwards: the file beside the directory for the language is changed. -/
theorem not_confined_upwards :
    let d : Disk := (({} : Disk).placeDirectory "docs/en").placeFile "docs/T.xml"
      "<Type></Type>".toUTF8
    let t : ApiType := { nameSpace := "..", name := "T", binding := some {} }
    let catalog : Catalog := ⟨#[t], Std.ExtTreeMap.empty.insert t.fullName 0⟩
    let c : Config := { metadataPath := "m", docsRoot := "docs" }
    let place : Location := ["T.xml", "docs"]
    d.lookup? place = some (.file "<Type></Type>".toUTF8) ∧
      (runConfig c catalog { disk := d }).1.disk.lookup? place = some (.file "<Type />\n".toUTF8) ∧
      ¬ Disk.IsBeneath (d.resolve c.languageRoot) place := by
  decide +kernel

end ApiDocs
