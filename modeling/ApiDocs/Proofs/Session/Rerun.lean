import ApiDocs.Proofs.Session.Journaling

/-!
# Running again

A run leaves a disk on which the next run of the same kind changes nothing. Each document that was
saved is a variant of the one that was loaded, so the next run makes the same decisions; and what it
writes over a document was written there before. Of several documents at one place the last one
stays, and only that one has to come out the same.
-/

namespace ApiDocs

open Xml

theorem all_toOption_iff {ε α : Type} {x : Except ε α} {p : α → Bool} :
    x.toOption.all p = true ↔ ∀ a, x = .ok a → p a = true := by
  cases x <;> simp [Except.toOption]

theorem rereads_refl (d : Disk) : Rereads d d :=
  ⟨.refl d, fun h => ⟨_, h, TypeDoc.variants_refl _⟩, fun h => ⟨_, h⟩⟩

namespace Session

/-- The documents and fragments that a run loads have clean names only. -/
structure LoadsClean (s : Session) (w : Workspace) : Prop where
  documents : ∀ path ∈ s.documentFiles w, ∀ doc, DocStore.read w.disk path = .ok doc →
    doc.document.root.toNode.all Node.hasCleanNames = true
  fragments : ∀ path ∈ s.fragmentFiles w, ∀ e, FragmentLibrary.read w.disk path = .ok e →
    e.toNode.all Node.hasCleanNames = true

/-- No file that a run reads as a fragment is one that it writes. -/
def SparesFragments (s : Session) (w : Workspace) : Prop :=
  ∀ fragment ∈ s.fragmentFiles w, ∀ document ∈ s.documentFiles w,
    w.disk.locate fragment ≠ w.disk.locate document

variable {s : Session} {w : Workspace}

theorem loadsClean_iff :
    s.LoadsClean w ↔
      ((s.documentFiles w).all fun path => (DocStore.read w.disk path).toOption.all fun doc =>
        doc.document.root.toNode.all Node.hasCleanNames) = true ∧
      ((s.fragmentFiles w).all fun path => (FragmentLibrary.read w.disk path).toOption.all fun e =>
        e.toNode.all Node.hasCleanNames) = true := by
  simp only [List.all_eq_true, all_toOption_iff]
  exact ⟨fun h => ⟨h.documents, h.fragments⟩, fun h => ⟨h.1, h.2⟩⟩

instance : Decidable (s.LoadsClean w) :=
  decidable_of_iff _ loadsClean_iff.symm

instance : Decidable (s.SparesFragments w) :=
  inferInstanceAs (Decidable (∀ fragment ∈ s.fragmentFiles w, ∀ document ∈ s.documentFiles w,
    w.disk.locate fragment ≠ w.disk.locate document))

/-! ## What a run has loaded -/

theorem mem_loadedDocs_iff {doc : String × LoadedDoc} :
    doc ∈ s.loadedDocs w ↔ (s.traverse w).session.store.docs[doc.1]? = some doc.2 :=
  Std.ExtTreeMap.mem_toList_iff_getElem?_eq_some

theorem mem_loadedDocs {doc : String × LoadedDoc} (h : doc ∈ s.savedDocs w) :
    doc ∈ s.loadedDocs w :=
  List.takeWhile_subset _ h

theorem docs_of_mem_savedDocs {doc : String × LoadedDoc} (h : doc ∈ s.savedDocs w) :
    (s.traverse w).session.store.docs[doc.1]? = some doc.2 :=
  mem_loadedDocs_iff.1 (mem_loadedDocs h)

theorem mem_documentFiles {name : String} {loaded : LoadedDoc}
    (h : (s.traverse w).session.store.docs[name]? = some loaded) :
    loaded.path ∈ s.documentFiles w :=
  List.mem_map.2 ⟨(name, loaded), mem_loadedDocs_iff.2 h, rfl⟩

/-- A run goes like itself, so what holds of two runs side by side holds of one. -/
theorem runsAlike_self (hempty : s.store.docs = ∅) (hjournal : w.journal = none)
    (hclean : s.LoadsClean w) : RunsAlike w.disk w.disk (s.traverse w) (s.traverse w) :=
  runsAlike_traverse (rereads_refl w.disk) hempty ⟨hjournal, rfl⟩ ⟨hjournal, rfl⟩
    fun path hpath => ⟨rfl, hclean.fragments path hpath⟩

/-- What a run has loaded is settled in the end, and is an overwritten form of what was read. -/
theorem loaded_of_traverse (hempty : s.store.docs = ∅) (hjournal : w.journal = none)
    (hclean : s.LoadsClean w) {name : String} {loaded : LoadedDoc}
    (h : (s.traverse w).session.store.docs[name]? = some loaded) :
    ∃ doc table, DocStore.read w.disk loaded.path = .ok doc ∧ loaded.doc = doc.overwrite table ∧
      loaded.doc.IsSettled := by
  have hself := runsAlike_self hempty hjournal hclean
  obtain ⟨-, doc, -, table, hread, -, -, htable, hdoc, -⟩ := hself.stores.alike h h
  refine ⟨doc, table, hread, hdoc, ?_⟩
  obtain ⟨_, _, text, -, -, -, hparse⟩ := DocStore.read_eq_ok_iff.1 hread
  have hnames := hclean.documents loaded.path (mem_documentFiles h) doc hread
  rw [hdoc]
  exact TypeDoc.isSettled_overwrite htable (TypeDoc.isSettled_of_parse hparse hnames)

/-- The disk after a run has saved what it has loaded, as far as it could. -/
structure Saved (s : Session) (w : Workspace) (d : Disk) : Prop where
  shape : Disk.SameShape w.disk d
  lookup? : ∀ place, d.lookup? place =
    ((DocStore.lastSaved? w.disk (s.savedDocs w) place).map (·.2.entry)).or (w.disk.lookup? place)

/-- A run writes to files only, so it makes none, and removes none. -/
theorem saved_run (hjournal : w.journal = none)
    (hfiles : ∀ doc ∈ s.loadedDocs w, w.disk.isFile doc.2.path = true) :
    s.Saved w (s.run w).2.1.disk := by
  have hlookup : ∀ place, (s.run w).2.1.disk.lookup? place =
      ((DocStore.lastSaved? w.disk (s.savedDocs w) place).map (·.2.entry)).or
        (w.disk.lookup? place) := fun place => s.lookup?_run w (by simp [hjournal])
  have hsame := s.sameDirectories_run w
  refine ⟨⟨hsame.workingDirectory, hsame.refusal?, fun place => ?_⟩, hlookup⟩
  rw [hlookup]
  cases hlast : DocStore.lastSaved? w.disk (s.savedDocs w) place with
  | none => rfl
  | some doc =>
    obtain ⟨hmem, hlocate⟩ := DocStore.locate_of_lastSaved? hlast
    obtain ⟨found, content, hfound, hfile⟩ := Disk.isFile_iff.1 (hfiles doc (mem_loadedDocs hmem))
    obtain rfl := Except.ok.inj (hlocate.symm.trans hfound)
    rw [hfile]
    rfl

/-! ## What the next run reads -/

namespace Saved

variable {d : Disk}

theorem lookup?_of_lastSaved? (h : s.Saved w d) {place : Location} {doc : String × LoadedDoc}
    (hsaved : DocStore.lastSaved? w.disk (s.savedDocs w) place = some doc) :
    d.lookup? place = some doc.2.entry := by
  rw [h.lookup?, hsaved]
  rfl

theorem lookup?_eq (h : s.Saved w d) {place : Location}
    (hnone : DocStore.lastSaved? w.disk (s.savedDocs w) place = none) :
    d.lookup? place = w.disk.lookup? place := by
  rw [h.lookup?, hnone]
  rfl

theorem read_of_lastSaved? (h : s.Saved w d) (hempty : s.store.docs = ∅)
    (hjournal : w.journal = none) (hclean : s.LoadsClean w) {place : Location}
    {doc : String × LoadedDoc}
    (hsaved : DocStore.lastSaved? w.disk (s.savedDocs w) place = some doc) {path : String}
    (hpath : w.disk.locate path = .ok place) :
    ∃ read table, DocStore.read w.disk path = .ok read ∧ doc.2.doc = read.overwrite table ∧
      DocStore.read d path = .ok doc.2.doc := by
  obtain ⟨hmem, hlocate⟩ := DocStore.locate_of_lastSaved? hsaved
  obtain ⟨read, table, hread, hdoc, hsettled⟩ :=
    loaded_of_traverse hempty hjournal hclean (docs_of_mem_savedDocs hmem)
  refine ⟨read, table, DocStore.read_of_locate_eq hlocate hpath hread, hdoc, ?_⟩
  exact DocStore.read_of_entry ((h.shape.locate_eq path).trans hpath)
    (h.lookup?_of_lastSaved? hsaved) hsettled

/-- What the next run reads is a variant of what this one read. -/
theorem rereads (h : s.Saved w d) (hempty : s.store.docs = ∅) (hjournal : w.journal = none)
    (hclean : s.LoadsClean w) : Rereads w.disk d := by
  have hcases : ∀ path, DocStore.read d path = DocStore.read w.disk path ∨
      ∃ doc table, DocStore.read w.disk path = .ok doc ∧
        DocStore.read d path = .ok (doc.overwrite table) := by
    intro path
    -- the path leads to a place that was written to, or to one that is as it was
    by_cases hsaved : ∃ place doc, w.disk.locate path = .ok place ∧
        DocStore.lastSaved? w.disk (s.savedDocs w) place = some doc
    · obtain ⟨place, saved, hpath, hsaved⟩ := hsaved
      obtain ⟨doc, table, hread, hdoc, hafter⟩ :=
        h.read_of_lastSaved? hempty hjournal hclean hsaved hpath
      exact .inr ⟨doc, table, hread, hdoc ▸ hafter⟩
    · refine .inl (DocStore.read_eq_of_find_eq (h.shape.find_eq fun place hpath => ?_))
      refine h.lookup?_eq (Option.eq_none_iff_forall_ne_some.2 fun doc hdoc => ?_)
      exact hsaved ⟨place, doc, hpath, hdoc⟩
  refine ⟨h.shape, fun {path doc} hread => ?_, fun {path doc'} hread' => ?_⟩
  · rcases hcases path with hsame | ⟨found, table, hfound, hafter⟩
    · exact ⟨doc, hsame.trans hread, TypeDoc.variants_refl doc⟩
    · obtain rfl := Except.ok.inj (hfound.symm.trans hread)
      exact ⟨_, hafter, TypeDoc.variants_overwrite found table⟩
  · rcases hcases path with hsame | ⟨found, _, hfound, -⟩
    · exact ⟨doc', hsame.symm.trans hread'⟩
    · exact ⟨found, hfound⟩

theorem sharesFragment (h : s.Saved w d) (hclean : s.LoadsClean w) (hspares : s.SparesFragments w)
    {path : String} (hpath : path ∈ s.fragmentFiles w) : SharesFragment w.disk d path := by
  refine ⟨h.shape.find_eq fun place hplace => ?_, hclean.fragments path hpath⟩
  refine h.lookup?_eq (Option.eq_none_iff_forall_ne_some.2 fun doc hdoc => ?_)
  obtain ⟨hmem, hlocate⟩ := DocStore.locate_of_lastSaved? hdoc
  refine hspares path hpath doc.2.path (List.mem_map.2 ⟨doc, mem_loadedDocs hmem, rfl⟩) ?_
  rw [hplace, hlocate]

end Saved

/-! ## What the next run writes -/

section Again

variable {d d' : Disk} {store store' : DocStore}

theorem StoresAlike.map_path_eq (h : StoresAlike d d' store store') :
    (store'.docs.map fun _ loaded => loaded.path) = store.docs.map fun _ loaded => loaded.path := by
  refine Std.ExtTreeMap.ext_getElem? fun name => ?_
  rw [Std.ExtTreeMap.getElem?_map, Std.ExtTreeMap.getElem?_map]
  rcases h.2 name with ⟨hnone, hnone'⟩ | ⟨loaded, loaded', hloaded, hloaded', halike⟩
  · rw [hnone, hnone']
  · rw [hloaded, hloaded', Option.map_some, Option.map_some, halike.path]

theorem StoresAlike.size_eq (h : StoresAlike d d' store store') :
    store'.docs.size = store.docs.size := by
  have hmap := congrArg Std.ExtTreeMap.size h.map_path_eq
  simpa using hmap

theorem StoresAlike.map_toList_eq (h : StoresAlike d d' store store') :
    store'.docs.toList.map (fun doc => (doc.1, doc.2.path)) =
      store.docs.toList.map fun doc => (doc.1, doc.2.path) := by
  have hlists := congrArg Std.ExtTreeMap.toList h.map_path_eq
  simpa only [Std.ExtTreeMap.toList_map] using hlists

/-- The paths decide how far saving comes, and which document stays at a place. -/
theorem StoresAlike.lastSaved? (h : StoresAlike d d' store store') (place : Location) :
    (DocStore.lastSaved? d (DocStore.savable d store'.docs.toList) place).map (·.1) =
      (DocStore.lastSaved? d (DocStore.savable d store.docs.toList) place).map (·.1) := by
  have hsavable (docs : List (String × LoadedDoc)) :
      (DocStore.savable d docs).map (fun doc => (doc.1, doc.2.path)) =
        (docs.map fun doc => (doc.1, doc.2.path)).takeWhile fun key => d.isWritable key.2 := by
    rw [List.takeWhile_map]
    rfl
  apply DocStore.lastSaved?_congr
  rw [hsavable, hsavable, h.map_toList_eq]

theorem StoresAlike.isWritable (h : StoresAlike d d' store store') {disk : Disk}
    (hall : ∀ doc ∈ store.docs.toList, disk.isWritable doc.2.path = true) :
    ∀ doc ∈ store'.docs.toList, disk.isWritable doc.2.path = true := by
  have hkeys : ∀ key ∈ store.docs.toList.map fun doc => (doc.1, doc.2.path),
      disk.isWritable key.2 = true := List.forall_mem_map.2 hall
  rw [← h.map_toList_eq] at hkeys
  exact List.forall_mem_map.1 hkeys

theorem isFile_of_runsAlike {p p' : Progress} (h : RunsAlike d d' p p') :
    ∀ doc ∈ p'.session.store.docs.toList, d'.isFile doc.2.path = true := by
  intro doc hmem
  have hloaded' := Std.ExtTreeMap.mem_toList_iff_getElem?_eq_some.1 hmem
  rcases h.stores.2 doc.1 with ⟨-, hnone'⟩ | ⟨loaded, loaded', -, hfound', halike⟩
  · rw [hnone'] at hloaded'
    cases hloaded'
  · obtain rfl : loaded' = doc.2 := Option.some.inj (hfound'.symm.trans hloaded')
    obtain ⟨hpath, _, _, _, -, hread', -⟩ := halike
    rw [hpath]
    exact DocStore.isFile_of_read hread'

variable {w' : Workspace}

/-- What this run leaves at a place, the next one comes to once more. -/
theorem Saved.loaded_eq (h : s.Saved w d) (hempty : s.store.docs = ∅) (hjournal : w.journal = none)
    (hclean : s.LoadsClean w) (halike : RunsAlike w.disk d (s.traverse w) (s.traverse w'))
    {place : Location} {doc : String × LoadedDoc}
    (hsaved : DocStore.lastSaved? w.disk (s.savedDocs w) place = some doc) {loaded : LoadedDoc}
    (hloaded : (s.traverse w').session.store.docs[doc.1]? = some loaded) : loaded = doc.2 := by
  obtain ⟨hmem, hlocate⟩ := DocStore.locate_of_lastSaved? hsaved
  obtain ⟨hpath, read, read', table, -, hread', -, -, hdoc, hagain⟩ :=
    halike.stores.alike (docs_of_mem_savedDocs hmem) hloaded
  obtain ⟨_, _, -, -, hstays⟩ := h.read_of_lastSaved? hempty hjournal hclean hsaved hlocate
  obtain rfl := Except.ok.inj (hstays.symm.trans hread')
  -- the same is written over it as before
  have hsame : loaded.doc = doc.2.doc := by
    rw [hagain, hdoc, TypeDoc.overwrite_overwrite, ProseTable.followedBy_self]
  calc loaded = ⟨loaded.path, loaded.doc⟩ := rfl
    _ = ⟨doc.2.path, doc.2.doc⟩ := by rw [hpath, hsame]

/-- The next run of a session leaves the disk as this one has left it. -/
theorem Saved.lookup?_again (h : s.Saved w d) (hempty : s.store.docs = ∅)
    (hjournal : w.journal = none) (hclean : s.LoadsClean w)
    (halike : RunsAlike w.disk d (s.traverse w) (s.traverse w')) (hdisk : w'.disk = d)
    (hagain : s.Saved w' d') (place : Location) : d'.lookup? place = d.lookup? place := by
  have hsavable : s.savedDocs w' = DocStore.savable w.disk (s.loadedDocs w') := by
    rw [savedDocs, hdisk, DocStore.savable_eq_of_sameDirectories h.shape.sameDirectories]
  have hlast : (DocStore.lastSaved? w.disk (s.savedDocs w') place).map (·.1) =
      (DocStore.lastSaved? w.disk (s.savedDocs w) place).map (·.1) := by
    rw [hsavable]
    exact halike.stores.lastSaved? place
  have hsaved' := hagain.lookup? place
  rw [hdisk, DocStore.lastSaved?_eq_of_sameShape h.shape] at hsaved'
  cases hsaved : DocStore.lastSaved? w.disk (s.savedDocs w) place with
  | none =>
    rw [hsaved, Option.map_none, Option.map_eq_none_iff] at hlast
    rw [hsaved', hlast]
    rfl
  | some doc =>
    rw [hsaved, Option.map_some] at hlast
    obtain ⟨doc', hlast', hname⟩ := Option.map_eq_some_iff.1 hlast
    obtain ⟨hmem, -⟩ := DocStore.locate_of_lastSaved? hlast'
    have hloaded := docs_of_mem_savedDocs hmem
    have hsame := h.loaded_eq hempty hjournal hclean halike hsaved (hname ▸ hloaded)
    rw [hsaved', hlast', h.lookup?_of_lastSaved? hsaved, ← hsame]
    rfl

end Again

/-- A session that runs again on the disk that a run has left reports the same, and leaves the disk
as it is. -/
theorem run_again (hempty : s.store.docs = ∅) (hjournal : w.journal = none)
    (hclean : s.LoadsClean w) (hspares : s.SparesFragments w) {session : Session}
    {after : Workspace} {report : RunReport} (hrun : s.run w = (session, after, .ok report))
    {w' : Workspace} (hw' : w'.ActsOn after.disk) :
    ∃ session' again, s.run w' = (session', again, .ok report) ∧
      ∀ place, again.disk.lookup? place = after.disk.lookup? place := by
  have hw : w.ActsOn w.disk := ⟨hjournal, rfl⟩
  have hself := runsAlike_self hempty hjournal hclean
  -- the first run saves everything that it has loaded
  have hwritable : ∀ doc ∈ s.loadedDocs w, w.disk.isWritable doc.2.path = true := by
    rw [← isOk_run_iff, hrun]
    rfl
  have hreport : (s.traverse w).finalReport = report := by
    have hresult := result_run_eq_ok hwritable
    rw [hrun] at hresult
    exact (Except.ok.inj hresult).symm
  have hsaved := saved_run hjournal (isFile_of_runsAlike hself)
  rw [hrun] at hsaved
  -- the second one comes to the same point, with variants of what the first one read
  have halike := runsAlike_traverse (hsaved.rereads hempty hjournal hclean) hempty hw hw'
    fun path hpath => hsaved.sharesFragment hclean hspares hpath
  have hfiles := isFile_of_runsAlike halike
  rw [← hw'.disk] at hfiles
  have hwritable' : ∀ doc ∈ s.loadedDocs w', w'.disk.isWritable doc.2.path = true := by
    intro doc hdoc
    rw [hw'.disk, hsaved.shape.sameDirectories.isWritable_eq]
    exact halike.stores.isWritable hwritable doc hdoc
  have hagain : (s.run w').2.2 = .ok report := by
    rw [result_run_eq_ok hwritable', ← hreport, Progress.finalReport, Progress.finalReport,
      halike.report, halike.stores.size_eq]
  exact ⟨(s.run w').1, (s.run w').2.1, Prod.ext rfl (Prod.ext rfl hagain),
    hsaved.lookup?_again hempty hjournal hclean halike hw'.disk (saved_run hw'.journal hfiles)⟩

end Session

/-! ## Configured runs -/

/-- What the run that a configuration describes begins on. -/
def Config.workspace (c : Config) (d : Disk) : Workspace :=
  if c.mergeExternal then Workspace.note { disk := d } (.mergingFrom c.fragmentRoot)
  else { disk := d }

theorem Config.actsOn_workspace (c : Config) (d : Disk) : (c.workspace d).ActsOn d := by
  have hquiet : Workspace.ActsOn { disk := d } d := ⟨rfl, rfl⟩
  unfold Config.workspace
  split
  · exact Workspace.actsOn_note hquiet _
  · exact hquiet

/-- A second run changes nothing: it reports what the first one reported, and every file stays as
the first one has left it. -/
theorem runConfig_again {c : Config} {catalog : Catalog} {d : Disk}
    (hclean : (Session.ofConfig c catalog).LoadsClean (c.workspace d))
    (hspares : (Session.ofConfig c catalog).SparesFragments (c.workspace d))
    {after : Workspace} {report : RunReport}
    (hrun : runConfig c catalog { disk := d } = (after, .ok report)) :
    ∃ again, runConfig c catalog { disk := after.disk } = (again, .ok report) ∧
      ∀ place, again.disk.lookup? place = after.disk.lookup? place := by
  have hfirst : (Session.ofConfig c catalog).run (c.workspace d) =
      (((Session.ofConfig c catalog).run (c.workspace d)).1, after, .ok report) :=
    Prod.ext rfl hrun
  obtain ⟨session, again, hagain, hstays⟩ :=
    Session.run_again rfl (c.actsOn_workspace d).journal hclean hspares hfirst
      (c.actsOn_workspace after.disk)
  exact ⟨again, congrArg Prod.snd hagain, hstays⟩

namespace Sample

/-- A bound type with a field that names a notification. -/
def catalog : Catalog where
  types := #[{
    name := "T"
    members := [{ name := "F", symbol := some "Notification" }]
    binding := some {} }]
  positions := Std.ExtTreeMap.empty.insert "T" 0

def config : Config where
  metadataPath := "/t"
  docsRoot := "/"
  mergeExternal := true
  notificationType := ""
  fragmentRoot := "/f"

/-- The documentation of the type, and the fragment for its field. -/
def disk : Disk :=
  let page := "<Type><Members><Member MemberName='F'><Docs><summary/><remarks/></Docs>".toUTF8 ++
    "<ReturnValue><ReturnType/></ReturnValue></Member></Members></Type>".toUTF8
  let entries : List (Location × Disk.Entry) :=
    [(["en"], .directory), (["", "en"], .directory), (["T.xml", "en"], .file page),
      (["f"], .directory), (["T", "f"], .directory),
      (["Notification.xml", "T", "f"], .file "<p>x</p>".toUTF8)]
  entries.foldl (fun d (place, entry) => d.put place entry) {}

end Sample

/-- The fragment is merged in the first run, and is merged again in the second. -/
theorem runConfig_again_sample :
    ∃ after again report, report.merge.fieldsMerged = 1 ∧
      runConfig Sample.config Sample.catalog { disk := Sample.disk } = (after, .ok report) ∧
      runConfig Sample.config Sample.catalog { disk := after.disk } = (again, .ok report) ∧
      ∀ place, again.disk.lookup? place = after.disk.lookup? place := by
  have hsample :
      (Session.ofConfig Sample.config Sample.catalog).LoadsClean
          (Sample.config.workspace Sample.disk) ∧
        (Session.ofConfig Sample.config Sample.catalog).SparesFragments
          (Sample.config.workspace Sample.disk) ∧
        (runConfig Sample.config Sample.catalog { disk := Sample.disk }).2 =
          .ok { typesProcessed := 1, documentsSaved := 1, merge := { fieldsMerged := 1 } } := by
    decide +kernel
  obtain ⟨hclean, hspares, hreport⟩ := hsample
  cases hrun : runConfig Sample.config Sample.catalog { disk := Sample.disk } with
  | mk after result =>
    rw [hrun] at hreport
    obtain rfl : result = _ := hreport
    obtain ⟨again, hagain, hstays⟩ := runConfig_again hclean hspares hrun
    exact ⟨after, again, _, rfl, rfl, hagain, hstays⟩

end ApiDocs
