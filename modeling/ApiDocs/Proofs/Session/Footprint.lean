import ApiDocs.Proofs.Session.Rerun
import ApiDocs.Proofs.Session.Serving

/-!
# What a run does to a disk

A run makes and removes nothing, and writes over those files only that it has loaded documentation
from. What it writes there is that documentation, with everything merged into it that the bound
types of its full name bring, in declared order. Any other file is left as it was. The system may
refuse that a file is written; then the files of greater full names are left, too.
-/

namespace ApiDocs

open Xml

namespace Session

/-- A run that begins with nothing loads the documentation of the type from its file: of the types
with its full name that the run looks at, it is the first whose file can be read. -/
def Loads (s : Session) (d : Disk) (job : ApiType × EventBinding) : Prop :=
  (s.served d job.1.fullName).head? = some job

/-- Saving comes past the documentation of a type: the system refuses to write neither to its file nor
to that of a loaded type with a smaller full name. -/
def Saves (s : Session) (d : Disk) (job : ApiType × EventBinding) : Prop :=
  ∀ first, s.Loads d first → first.1.fullName ≤ job.1.fullName →
    d.refuses (s.store.path first.1) = false

/-- No documentation of another full name is loaded from the place. -/
def LoadsAlone (s : Session) (d : Disk) (job : ApiType × EventBinding) (place : Location) : Prop :=
  ∀ other, s.Loads d other → other.1.fullName ≠ job.1.fullName →
    d.locate (s.store.path other.1) ≠ .ok place

/-- The system refuses to write to none of the files that a run loads documentation from. -/
def MaySave (s : Session) (w : Workspace) : Prop :=
  ∀ path ∈ s.documentFiles w, w.disk.refuses path = false

instance {s : Session} {w : Workspace} : Decidable (s.MaySave w) :=
  inferInstanceAs (Decidable (∀ path ∈ s.documentFiles w, w.disk.refuses path = false))

/-- The documentation after all merges for a full name. -/
def mergedAll (s : Session) (d : Disk) (name : String) (doc : TypeDoc) : TypeDoc :=
  (s.served d name).foldl (fun doc job => (s.merged d job doc).doc) doc

variable {s : Session} {d : Disk} {w : Workspace}

/-! ## What is loaded -/

theorem Loads.mem_filter {job : ApiType × EventBinding} (h : s.Loads d job) :
    job ∈ s.asked ∧ (s.store.load? d job.1).isSome := by
  have hmem := (List.dropWhile_sublist _).subset (List.mem_of_mem_head? h)
  have hload := List.head?_dropWhile_not
    (fun job : ApiType × EventBinding => (s.store.load? d job.1).isNone)
    (s.asked.filter (·.1.fullName = job.1.fullName))
  have hhead : ((s.asked.filter (·.1.fullName = job.1.fullName)).dropWhile fun job =>
      (s.store.load? d job.1).isNone).head? = some job := h
  rw [hhead] at hload
  refine ⟨(List.mem_filter.1 hmem).1, ?_⟩
  simpa using hload

/-- The type whose documentation is loaded is looked at, and its file can be read. -/
theorem Loads.exists_read {job : ApiType × EventBinding} (h : s.Loads d job) :
    job ∈ s.asked ∧ ∃ doc, DocStore.read d (s.store.path job.1) = .ok doc := by
  obtain ⟨hasked, hload⟩ := h.mem_filter
  obtain ⟨loaded, hloaded⟩ := Option.isSome_iff_exists.1 hload
  exact ⟨hasked, loaded.doc, (load?_eq_some_iff.1 hloaded).2⟩

theorem docs_traverse (hempty : s.store.docs = ∅) (hw : w.ActsOn d) (name : String) :
    (s.traverse w).session.store.docs[name]? =
      ((s.served d name).head?.bind fun job => s.store.load? d job.1).map fun loaded =>
        { loaded with doc := s.mergedAll d name loaded.doc } := by
  have hnothing : s.store.docs[name]? = none := by simp [hempty]
  rw [(follows_traverse hw).2 name, hnothing, foldl_serve_none]
  rfl

theorem docs_of_loads (hempty : s.store.docs = ∅) (hw : w.ActsOn d) {job : ApiType × EventBinding}
    (h : s.Loads d job) {doc : TypeDoc} (hread : DocStore.read d (s.store.path job.1) = .ok doc) :
    (s.traverse w).session.store.docs[job.1.fullName]? =
      some ⟨s.store.path job.1, s.mergedAll d job.1.fullName doc⟩ := by
  have hload : s.store.load? d job.1 = some ⟨s.store.path job.1, doc⟩ :=
    load?_eq_some_iff.2 ⟨rfl, hread⟩
  rw [docs_traverse hempty hw, show (s.served d job.1.fullName).head? = some job from h,
    Option.bind_some, hload]
  rfl

theorem loads_of_docs (hempty : s.store.docs = ∅) (hw : w.ActsOn d) {name : String}
    {loaded : LoadedDoc} (h : (s.traverse w).session.store.docs[name]? = some loaded) :
    ∃ job, job.1.fullName = name ∧ s.Loads d job ∧ loaded.path = s.store.path job.1 := by
  rw [docs_traverse hempty hw] at h
  obtain ⟨before, hbefore, rfl⟩ := Option.map_eq_some_iff.1 h
  obtain ⟨job, hjob, hload⟩ := Option.bind_eq_some_iff.1 hbefore
  have hmem := (List.dropWhile_sublist _).subset (List.mem_of_mem_head? hjob)
  have hname : job.1.fullName = name := by simpa using (List.mem_filter.1 hmem).2
  subst hname
  exact ⟨job, rfl, hjob, (load?_eq_some_iff.1 hload).1⟩

theorem isFile_of_loadedDocs (hempty : s.store.docs = ∅) (hw : w.ActsOn d) :
    ∀ doc ∈ s.loadedDocs w, d.isFile doc.2.path = true := by
  intro doc hmem
  obtain ⟨job, -, hloads, hpath⟩ := loads_of_docs hempty hw (mem_loadedDocs_iff.1 hmem)
  obtain ⟨-, found, hread⟩ := hloads.exists_read
  rw [hpath]
  exact DocStore.isFile_of_read hread

/-- A run that begins with nothing fails only if the system refuses to write to some file. -/
theorem isOk_run_iff_maySave (hempty : s.store.docs = ∅) (hw : w.ActsOn d) :
    (s.run w).2.2.isOk = true ↔ s.MaySave w := by
  obtain ⟨rfl⟩ : w.disk = d := hw.disk
  have hfiles := isFile_of_loadedDocs (s := s) hempty hw
  rw [isOk_run_iff, MaySave, documentFiles, List.forall_mem_map]
  refine forall₂_congr fun doc hdoc => ?_
  rw [Disk.isWritable_of_isFile (hfiles doc hdoc)]
  simp

theorem maySave_of_run_eq_ok (hempty : s.store.docs = ∅) (hw : w.ActsOn d) {report : RunReport}
    (h : (s.run w).2.2 = .ok report) : s.MaySave w := by
  rw [← isOk_run_iff_maySave hempty hw, h]
  rfl

/-- A run may save if it loads nothing but what another one loads that may. -/
theorem MaySave.of_paths {s' : Session} (h : s.MaySave w)
    (hpaths : ∀ (name : String) (loaded : LoadedDoc),
      (s'.traverse w).session.store.docs[name]? = some loaded →
        ∃ found, (s.traverse w).session.store.docs[name]? = some found ∧
          found.path = loaded.path) : s'.MaySave w := by
  intro path hpath
  obtain ⟨⟨name, loaded⟩, hmem, rfl⟩ := List.mem_map.1 hpath
  obtain ⟨found, hfound, hsame⟩ := hpaths name loaded (mem_loadedDocs_iff.1 hmem)
  rw [← hsame]
  exact h found.path (mem_documentFiles hfound)

/-- Saving stops in front of the first file that the system refuses to write to. -/
theorem mem_savedDocs_iff (hempty : s.store.docs = ∅) (hw : w.ActsOn d)
    {job : ApiType × EventBinding} {loaded : LoadedDoc}
    (hdocs : (s.traverse w).session.store.docs[job.1.fullName]? = some loaded) :
    (job.1.fullName, loaded) ∈ s.savedDocs w ↔ s.Saves d job := by
  obtain ⟨rfl⟩ : w.disk = d := hw.disk
  have hmem : (job.1.fullName, loaded) ∈ s.loadedDocs w := mem_loadedDocs_iff.2 hdocs
  rw [savedDocs, loadedDocs, DocStore.mem_savable_iff hmem]
  constructor
  · intro hall first hfirst hle
    obtain ⟨-, doc, hread⟩ := hfirst.exists_read
    have hthere : (first.1.fullName, _) ∈ s.loadedDocs w :=
      mem_loadedDocs_iff.2 (docs_of_loads hempty hw hfirst hread)
    have hwritable := hall _ hthere hle
    rw [Disk.isWritable_of_isFile (DocStore.isFile_of_read hread)] at hwritable
    simpa using hwritable
  · intro hsaves first hfirst hle
    obtain ⟨loader, hname, hloader, hpath⟩ :=
      loads_of_docs hempty hw (mem_loadedDocs_iff.1 hfirst)
    obtain ⟨-, doc, hread⟩ := hloader.exists_read
    rw [← hname] at hle
    rw [hpath, Disk.isWritable_of_isFile (DocStore.isFile_of_read hread), hsaves loader hloader hle]
    rfl

/-! ## What is written -/

/-- What a run that begins with nothing leaves of the disk `d`. -/
structure Footprint (s : Session) (d after : Disk) : Prop where
  /-- No file and no directory is made or removed. -/
  shape : Disk.SameShape d after
  /-- A place changes only if it is the file of a type whose documentation was loaded from it. The
  type is bound and asked for. -/
  written : ∀ place, after.lookup? place ≠ d.lookup? place →
    ∃ job ∈ s.asked, s.Loads d job ∧ d.locate (s.store.path job.1) = .ok place
  /-- What is written over the file of one loaded type only: what was read there, after one merge
  for each type of the full name that was given the documentation. -/
  content : ∀ job, s.Loads d job → s.Saves d job → ∀ place,
    d.locate (s.store.path job.1) = .ok place → s.LoadsAlone d job place →
    ∃ doc, DocStore.read d (s.store.path job.1) = .ok doc ∧
      after.lookup? place = some (.file (s.mergedAll d job.1.fullName doc).render.toUTF8)
  /-- Such a file stays as it was if the system refuses to write to it, or to one before it. -/
  stopped : ∀ job, s.Loads d job → ¬ s.Saves d job → ∀ place,
    d.locate (s.store.path job.1) = .ok place → s.LoadsAlone d job place →
    after.lookup? place = d.lookup? place
  /-- What no type was loaded from stays, be it the file of a type or not. -/
  untouched : ∀ path, (∀ job, s.Loads d job → d.locate (s.store.path job.1) ≠ d.locate path) →
    after.find path = d.find path
  /-- Documentation that is missing or cannot be read stays so. -/
  unreadable : ∀ path, (∀ doc, DocStore.read d path ≠ .ok doc) → after.find path = d.find path

theorem Saved.exists_loads (hempty : s.store.docs = ∅) (hw : w.ActsOn d) {after : Disk}
    (h : s.Saved w after) {place : Location} (hchanged : after.lookup? place ≠ d.lookup? place) :
    ∃ job ∈ s.asked, s.Loads d job ∧ d.locate (s.store.path job.1) = .ok place := by
  obtain ⟨rfl⟩ : w.disk = d := hw.disk
  cases hlast : DocStore.lastSaved? w.disk (s.savedDocs w) place with
  | none => exact absurd (h.lookup?_eq hlast) hchanged
  | some doc =>
    obtain ⟨hmem, hlocate⟩ := DocStore.locate_of_lastSaved? hlast
    obtain ⟨job, -, hloads, hpath⟩ := loads_of_docs hempty hw (docs_of_mem_savedDocs hmem)
    exact ⟨job, hloads.mem_filter.1, hloads, hpath ▸ hlocate⟩

/-- If the file of a loaded type is its own, only its documentation is saved there. -/
theorem eq_of_loadsAlone (hempty : s.store.docs = ∅) (hw : w.ActsOn d)
    {job : ApiType × EventBinding} {loaded : LoadedDoc} {place : Location}
    (hdocs : (s.traverse w).session.store.docs[job.1.fullName]? = some loaded)
    (halone : s.LoadsAlone d job place) {doc : String × LoadedDoc} (hmem : doc ∈ s.savedDocs w)
    (hplace : w.disk.locate doc.2.path = .ok place) : doc = (job.1.fullName, loaded) := by
  have hdoc := docs_of_mem_savedDocs hmem
  obtain ⟨loader, hname, hloader, hpath⟩ := loads_of_docs hempty hw hdoc
  rw [hw.disk, hpath] at hplace
  have hsame : loader.1.fullName = job.1.fullName := by
    by_contra hne
    exact halone loader hloader hne hplace
  rw [← hname, hsame, hdocs] at hdoc
  calc doc = (doc.1, doc.2) := rfl
    _ = (job.1.fullName, loaded) := by rw [← hname, hsame, Option.some.inj hdoc]

theorem Saved.lookup?_of_saves (hempty : s.store.docs = ∅) (hw : w.ActsOn d) {after : Disk}
    (h : s.Saved w after) {job : ApiType × EventBinding} (hloads : s.Loads d job)
    (hsaves : s.Saves d job) {place : Location}
    (hlocate : d.locate (s.store.path job.1) = .ok place) (halone : s.LoadsAlone d job place) :
    ∃ doc, DocStore.read d (s.store.path job.1) = .ok doc ∧
      after.lookup? place = some (.file (s.mergedAll d job.1.fullName doc).render.toUTF8) := by
  obtain ⟨-, doc, hread⟩ := hloads.exists_read
  have hdocs := docs_of_loads hempty hw hloads hread
  have hmem := (mem_savedDocs_iff hempty hw hdocs).2 hsaves
  rw [← hw.disk] at hlocate
  have hlast := DocStore.lastSaved?_of_mem hmem hlocate fun other hother hplace =>
    eq_of_loadsAlone hempty hw hdocs halone hother hplace
  refine ⟨doc, hread, ?_⟩
  rw [h.lookup?_of_lastSaved? hlast, LoadedDoc.entry]

theorem Saved.lookup?_of_not_saves (hempty : s.store.docs = ∅) (hw : w.ActsOn d) {after : Disk}
    (h : s.Saved w after) {job : ApiType × EventBinding} (hloads : s.Loads d job)
    (hstopped : ¬ s.Saves d job) {place : Location} (halone : s.LoadsAlone d job place) :
    after.lookup? place = d.lookup? place := by
  obtain ⟨-, doc, hread⟩ := hloads.exists_read
  have hdocs := docs_of_loads hempty hw hloads hread
  rw [← hw.disk]
  apply h.lookup?_eq
  apply Option.eq_none_iff_forall_ne_some.2
  intro last hlast
  obtain ⟨hmem, hplace⟩ := DocStore.locate_of_lastSaved? hlast
  obtain rfl := eq_of_loadsAlone hempty hw hdocs halone hmem hplace
  exact hstopped ((mem_savedDocs_iff hempty hw hdocs).1 hmem)

/-- What is read in a run is all that it may write over. -/
theorem footprint_of_saved (hempty : s.store.docs = ∅) (hw : w.ActsOn d) {after : Disk}
    (h : s.Saved w after) : s.Footprint d after := by
  have hshape : Disk.SameShape d after := hw.disk ▸ h.shape
  have hwritten : ∀ place, after.lookup? place ≠ d.lookup? place →
      ∃ job ∈ s.asked, s.Loads d job ∧ d.locate (s.store.path job.1) = .ok place :=
    fun place => h.exists_loads hempty hw
  have hkept : ∀ place, (∀ job, s.Loads d job → d.locate (s.store.path job.1) ≠ .ok place) →
      after.lookup? place = d.lookup? place := by
    intro place hspared
    refine Classical.byContradiction fun hchanged => ?_
    obtain ⟨job, -, hloads, hlocate⟩ := hwritten place hchanged
    exact hspared job hloads hlocate
  refine ⟨hshape, hwritten,
    fun job hloads hsaves place => h.lookup?_of_saves hempty hw hloads hsaves,
    fun job hloads hstopped place _ => h.lookup?_of_not_saves hempty hw hloads hstopped,
    fun path hspared => ?_, fun path hunreadable => ?_⟩
  · refine hshape.find_eq fun place hplace => hkept place fun job hloads hlocate => ?_
    exact hspared job hloads (hlocate.trans hplace.symm)
  · refine hshape.find_eq fun place hplace => hkept place fun job hloads hlocate => ?_
    obtain ⟨-, doc, hread⟩ := hloads.exists_read
    exact hunreadable doc (DocStore.read_of_locate_eq hlocate hplace hread)

theorem actsOn_saving (hw : w.ActsOn d) : (s.saving w).ActsOn d :=
  ⟨(follows_traverse hw).1.actsOn.journal, (follows_traverse hw).1.actsOn.disk⟩

theorem saved_of_run (hempty : s.store.docs = ∅) (hw : w.ActsOn d) :
    s.Saved w (s.run w).2.1.disk := by
  obtain ⟨rfl⟩ : w.disk = d := hw.disk
  exact saved_run hw.journal (isFile_of_loadedDocs hempty hw)

theorem footprint_run (hempty : s.store.docs = ∅) (hw : w.ActsOn d) :
    s.Footprint d (s.run w).2.1.disk :=
  footprint_of_saved hempty hw (saved_of_run hempty hw)

end Session

/-- The run that a configuration describes leaves every place of the disk as it was, but for the
files from which it has loaded documentation; these hold the merged documentation in the end. -/
theorem runConfig_footprint (c : Config) (catalog : Catalog) (d : Disk) :
    (Session.ofConfig c catalog).Footprint d (runConfig c catalog { disk := d }).1.disk :=
  Session.footprint_run rfl (c.actsOn_workspace d)

end ApiDocs
