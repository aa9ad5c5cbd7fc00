import ApiDocs.Proofs.Session.Rerun
import ApiDocs.Proofs.Session.Serving

/-!
# Runs one after another

A session keeps what it has loaded from one run to the next, and in between others may change the
disk as they like. What it holds is settled all the time, as long as nothing is loaded with names
that cannot be written back. So a run that saves everything leaves it to be read as it is held.
-/

namespace ApiDocs

open Xml

/-- Everything that is held is written and read back as it is. -/
def DocStore.IsSettled (store : DocStore) : Prop :=
  ∀ (name : String) (loaded : LoadedDoc), store.docs[name]? = some loaded → loaded.doc.IsSettled

/-- If documentation is read from the file, its names are clean. -/
def DocStore.ReadsClean (d : Disk) (path : String) : Prop :=
  ∀ doc, DocStore.read d path = .ok doc → doc.document.root.toNode.all Node.hasCleanNames = true

/-- If a fragment is read from the file, its names are clean. -/
def FragmentLibrary.ReadsClean (d : Disk) (path : String) : Prop :=
  ∀ e, FragmentLibrary.read d path = .ok e → e.toNode.all Node.hasCleanNames = true

instance {d : Disk} {path : String} : Decidable (DocStore.ReadsClean d path) :=
  decidable_of_iff _ all_toOption_iff

instance {d : Disk} {path : String} : Decidable (FragmentLibrary.ReadsClean d path) :=
  decidable_of_iff _ all_toOption_iff

namespace Session

/-- The documentation files that a run loads. What was held before is not loaded again. -/
def loadedFiles (s : Session) (w : Workspace) : List String :=
  ((s.traverse w).session.store.docs.toList.filter fun doc => ! s.store.isLoaded doc.1).map
    (·.2.path)

/-- What a run loads, documents and fragments, has clean names only. -/
structure AddsClean (s : Session) (w : Workspace) : Prop where
  documents : ∀ path ∈ s.loadedFiles w, DocStore.ReadsClean w.disk path
  fragments : ∀ path ∈ s.fragmentFiles w, FragmentLibrary.ReadsClean w.disk path

/-- The session after a run on each of the disks, in order. -/
def afterRuns (s : Session) (disks : List Disk) : Session :=
  disks.foldl (fun s d => (s.run { disk := d }).1) s

/-- Each of the runs loads clean names only. -/
def RunsClean (s : Session) : List Disk → Prop
  | [] => True
  | d :: rest => s.AddsClean { disk := d } ∧ RunsClean (s.run { disk := d }).1 rest

theorem addsClean_iff {s : Session} {w : Workspace} :
    s.AddsClean w ↔ (∀ path ∈ s.loadedFiles w, DocStore.ReadsClean w.disk path) ∧
      ∀ path ∈ s.fragmentFiles w, FragmentLibrary.ReadsClean w.disk path :=
  ⟨fun h => ⟨h.documents, h.fragments⟩, fun h => ⟨h.1, h.2⟩⟩

instance {s : Session} {w : Workspace} : Decidable (s.AddsClean w) :=
  decidable_of_iff _ addsClean_iff.symm

instance decidableRunsClean : (s : Session) → (disks : List Disk) → Decidable (s.RunsClean disks)
  | _, [] => .isTrue trivial
  | s, d :: rest =>
    have := decidableRunsClean (s.run { disk := d }).1 rest
    inferInstanceAs (Decidable (_ ∧ _))

theorem runsClean_concat {s : Session} {disks : List Disk} {d : Disk} :
    s.RunsClean (disks ++ [d]) ↔
      s.RunsClean disks ∧ (s.afterRuns disks).AddsClean { disk := d } := by
  induction disks generalizing s with
  | nil => simp [RunsClean, afterRuns]
  | cons first rest ih =>
    simp only [List.cons_append, RunsClean, ih, afterRuns, List.foldl_cons, and_assoc]

/-! ## One run -/

variable {s : Session} {d : Disk} {w : Workspace}

theorem exists_overwrite_mergeType (hw : w.ActsOn d) {t : ApiType} {binding : EventBinding}
    {doc : TypeDoc}
    (hreads : ∀ path ∈ s.mergeReads w t binding doc, FragmentLibrary.ReadsClean d path) :
    (s.mergeType w t binding doc).1.ActsOn d ∧ ∃ table : ProseTable, table.IsSettled ∧
      (s.mergeType w t binding doc).2.1 = doc.overwrite table := by
  obtain ⟨hacts, -, -, table, htable, hdoc, -⟩ :=
    mergesAlike_mergeType (.refl d) (TypeDoc.variants_refl doc) hw hw
      fun path hpath => ⟨rfl, hreads path hpath⟩
  exact ⟨hacts, table, htable, hdoc⟩

/-- A run of the session on the disk has come to some type. What it holds by then is settled, if the
names in its file are clean. These do not matter for what was held before. -/
structure Settles (s : Session) (d : Disk) (p : Progress) : Prop where
  actsOn : p.workspace.ActsOn d
  keeps : ∀ name : String, p.session.store.docs[name]? = none → s.store.docs[name]? = none
  settled : ∀ (name : String) (loaded : LoadedDoc), p.session.store.docs[name]? = some loaded →
    (s.store.docs[name]? = none → DocStore.ReadsClean d loaded.path) → loaded.doc.IsSettled

theorem Settles.isSettled_of_gives {p : Progress} (h : s.Settles d p) {t : ApiType}
    {loaded : LoadedDoc} (hgives : p.session.store.Gives d t loaded)
    (hnames : s.store.docs[t.fullName]? = none → DocStore.ReadsClean d loaded.path) :
    loaded.doc.IsSettled := by
  cases hgives with
  | before hloaded => exact h.settled t.fullName loaded hloaded hnames
  | fromFile hnone hpath hread =>
    have hclean := hnames (h.keeps t.fullName hnone) loaded.doc (hpath ▸ hread)
    obtain ⟨_, _, text, -, -, -, hparse⟩ := DocStore.read_eq_ok_iff.1 hread
    exact TypeDoc.isSettled_of_parse hparse hclean

theorem settles_visit {p : Progress} (h : s.Settles d p) {t : ApiType} {binding : EventBinding}
    (hreads : ∀ notices store doc,
      p.session.store.get p.workspace.disk t = (notices, store, some doc) →
      ∀ path ∈ p.session.mergeReads
        ((p.workspace.noteAll notices).note (.processing t.fullName)) t binding doc,
        FragmentLibrary.ReadsClean d path) :
    s.Settles d (p.visit t binding) := by
  rcases p.session.store.get_cases d t with ⟨notices, hget, -⟩ |
    ⟨notices, store, loaded, hget, hgives, -, hdocs⟩
  · rw [← h.actsOn.disk] at hget
    rw [visit_of_get_none hget]
    exact ⟨Workspace.actsOn_noteAll h.actsOn notices, h.keeps, h.settled⟩
  · rw [← h.actsOn.disk] at hget
    have hw := Workspace.actsOn_note (Workspace.actsOn_noteAll h.actsOn notices)
      (.processing t.fullName)
    obtain ⟨hacts, table, htable, hmerged⟩ :=
      exists_overwrite_mergeType hw (hreads notices store loaded.doc hget)
    rw [visit_of_get_some hget]
    simp only [hmerged]
    -- only what is held under the name of the type has changed, and it comes from the same file
    refine ⟨hacts, fun name hnone => ?_, fun name found hfound hnames => ?_⟩
    · rw [hdocs] at hnone
      by_cases hname : t.fullName = name
      · rw [if_pos hname] at hnone
        cases hnone
      · rw [if_neg hname] at hnone
        exact h.keeps name hnone
    · rw [hdocs] at hfound
      by_cases hname : t.fullName = name
      · rw [if_pos hname] at hfound
        cases hfound
        subst hname
        exact TypeDoc.isSettled_overwrite htable (h.isSettled_of_gives hgives hnames)
      · rw [if_neg hname] at hfound
        exact h.settled name found hfound hnames

theorem settles_step {p : Progress} {t : ApiType} (h : s.Settles d p)
    (hreads : ∀ path ∈ p.reads t, FragmentLibrary.ReadsClean d path) : s.Settles d (p.step t) := by
  unfold Progress.step
  split
  · exact h
  · next hasked =>
    cases hbinding : t.binding with
    | none => exact h
    | some binding =>
      refine settles_visit h fun notices store doc hget path hpath => hreads path ?_
      simp only [Progress.reads, if_neg hasked, hbinding, hget, hpath]

theorem settles_traverse (hw : w.ActsOn d) (hsettled : s.store.IsSettled)
    (hreads : ∀ path ∈ s.fragmentFiles w, FragmentLibrary.ReadsClean d path) :
    s.Settles d (s.traverse w) := by
  have hbegin : s.Settles d { session := s, workspace := w } :=
    ⟨hw, fun name => id, fun name loaded hloaded _ => hsettled name loaded hloaded⟩
  exact foldl_of_traceFold settles_step hbegin hreads

/-- A run that loads clean names only keeps everything settled that the session holds. -/
theorem isSettled_run (hw : w.ActsOn d) (hsettled : s.store.IsSettled) (hclean : s.AddsClean w) :
    (s.run w).1.store.IsSettled := by
  obtain ⟨rfl⟩ : w.disk = d := hw.disk
  intro name loaded hloaded
  refine (settles_traverse hw hsettled hclean.fragments).settled name loaded hloaded fun hnew => ?_
  refine hclean.documents loaded.path (List.mem_map.2 ⟨(name, loaded), ?_, rfl⟩)
  refine List.mem_filter.2 ⟨Std.ExtTreeMap.mem_toList_iff_getElem?_eq_some.2 hloaded, ?_⟩
  simp [DocStore.isLoaded, Std.ExtTreeMap.contains_eq_isSome_getElem?, hnew]

/-! ## All runs -/

theorem isSettled_afterRuns {disks : List Disk} (hsettled : s.store.IsSettled)
    (hclean : s.RunsClean disks) : (s.afterRuns disks).store.IsSettled := by
  induction disks generalizing s with
  | nil => exact hsettled
  | cons d rest ih =>
    obtain ⟨hfirst, hrest⟩ := hclean
    exact ih (isSettled_run ⟨rfl, rfl⟩ hsettled hfirst) hrest

/-- A run that succeeds has come to its end, where it has written everything that it holds. -/
theorem traverse_of_run_eq_ok {next : Session} {after : Workspace} {report : RunReport}
    (hrun : s.run w = (next, after, .ok report)) :
    next = (s.traverse w).session ∧ report = (s.traverse w).finalReport ∧
      DocStore.saveEach ((s.traverse w).workspace.print "saving") next.store.docs.toList =
        (after, .ok ()) := by
  rw [run, ← traverse, DocStore.saveAll] at hrun
  cases hsave : DocStore.saveEach ((s.traverse w).workspace.print "saving")
      (s.traverse w).session.store.docs.toList with
  | mk left result =>
    rw [hsave] at hrun
    cases result with
    | error cause => cases hrun
    | ok _ =>
      cases hrun
      exact ⟨rfl, rfl, hsave⟩

theorem saveEach_of_run_eq_ok (hw : w.ActsOn d) {next : Session} {after : Workspace}
    {report : RunReport} (hrun : s.run w = (next, after, .ok report)) :
    ∃ saving : Workspace, saving.journal = none ∧
      DocStore.saveEach saving next.store.docs.toList = (after, .ok ()) := by
  have hacts := (follows_traverse (s := s) hw).1.actsOn
  obtain ⟨-, -, hsave⟩ := traverse_of_run_eq_ok hrun
  exact ⟨(s.traverse w).workspace.print "saving", hacts.journal, hsave⟩

/-- The last document that was written to a place is read from there, if it is settled. -/
theorem read_of_lastSaved? (hw : w.ActsOn d) {next : Session} {after : Workspace}
    {report : RunReport} (hrun : s.run w = (next, after, .ok report))
    (hsettled : next.store.IsSettled) {place : Location} {doc : String × LoadedDoc}
    (hlast : DocStore.lastSaved? after.disk next.store.docs.toList place = some doc) :
    DocStore.read after.disk doc.2.path = .ok doc.2.doc := by
  obtain ⟨saving, hjournal, hsave⟩ := saveEach_of_run_eq_ok hw hrun
  obtain ⟨-, -, hentries⟩ := DocStore.saveEach_eq_ok hjournal hsave
  obtain ⟨hmem, hlocate⟩ := DocStore.locate_of_lastSaved? hlast
  have hloaded := Std.ExtTreeMap.mem_toList_iff_getElem?_eq_some.1 hmem
  have hentry : after.disk.lookup? place = some doc.2.entry := by
    rw [hentries, hlast]
    rfl
  exact DocStore.read_of_entry hlocate hentry (hsettled doc.1 doc.2 hloaded)

/-- After each run that succeeds, the file of a loaded type holds its documentation as the session
does, if it is the file of no other loaded type. Each run may begin on another disk. -/
theorem read_of_run (hempty : s.store.docs = ∅) {disks : List Disk}
    (hclean : s.RunsClean (disks ++ [d])) {next : Session} {after : Workspace} {report : RunReport}
    (hrun : (s.afterRuns disks).run { disk := d } = (next, after, .ok report)) {name : String}
    {loaded : LoadedDoc} (hloaded : next.store.docs[name]? = some loaded)
    (halone : ∀ (other : String) (found : LoadedDoc), next.store.docs[other]? = some found →
      other ≠ name → after.disk.locate found.path ≠ after.disk.locate loaded.path) :
    DocStore.read after.disk loaded.path = .ok loaded.doc := by
  obtain ⟨hbefore, hnow⟩ := runsClean_concat.1 hclean
  have hacts : Workspace.ActsOn { disk := d } d := ⟨rfl, rfl⟩
  have hbegin : s.store.IsSettled := by
    intro name loaded hloaded
    simp [hempty] at hloaded
  have hsettled : next.store.IsSettled := by
    have hkept := isSettled_run hacts (isSettled_afterRuns hbegin hbefore) hnow
    rwa [hrun] at hkept
  obtain ⟨saving, hjournal, hsave⟩ := saveEach_of_run_eq_ok hacts hrun
  obtain ⟨-, hpaths, -⟩ := DocStore.saveEach_eq_ok hjournal hsave
  have hmem := Std.ExtTreeMap.mem_toList_iff_getElem?_eq_some.2 hloaded
  obtain ⟨place, hlocate⟩ := hpaths (name, loaded) hmem
  have hlast : DocStore.lastSaved? after.disk next.store.docs.toList place =
      some (name, loaded) :=
    DocStore.lastSaved?_of_alone hloaded hlocate fun other found hfound hne hplace =>
      halone other found hfound hne (hplace.trans hlocate.symm)
  have hread := read_of_lastSaved? hacts hrun hsettled hlast
  exact hread

end Session

namespace Sample

def session : Session := Session.ofConfig config catalog

/-- Between two runs, others replace the fragment and remove the documentation. -/
def changedDisk : Disk :=
  (disk.put ["Notification.xml", "T", "f"] (.file "<p>y</p>".toUTF8)).removeTree ["T.xml", "en"]

end Sample

/-- The second run writes the file anew, with what the first one has loaded and the new fragment. -/
theorem Session.read_of_run_sample :
    ∃ next after report loaded,
      (Sample.session.afterRuns [Sample.disk]).run { disk := Sample.changedDisk } =
          (next, after, .ok report) ∧
        next.store.docs["T"]? = some loaded ∧ Sample.changedDisk.isFile loaded.path = false ∧
        DocStore.read after.disk loaded.path = .ok loaded.doc := by
  have hsample :
      Sample.session.RunsClean ([Sample.disk] ++ [Sample.changedDisk]) ∧
        ((Sample.session.afterRuns [Sample.disk]).run { disk := Sample.changedDisk }).2.2 =
          .ok { typesProcessed := 1, documentsSaved := 1, merge := { fieldsMerged := 1 } } ∧
        ((Sample.session.afterRuns [Sample.disk]).run
            { disk := Sample.changedDisk }).1.store.docs.toList.map
          (fun doc => (doc.1, Sample.changedDisk.isFile doc.2.path)) = [("T", false)] := by
    decide +kernel
  obtain ⟨hclean, hreport, hdocs⟩ := hsample
  cases hrun : (Sample.session.afterRuns [Sample.disk]).run { disk := Sample.changedDisk } with
  | mk next rest =>
    obtain ⟨after, result⟩ := rest
    rw [hrun] at hreport hdocs
    obtain rfl : result = _ := hreport
    obtain ⟨⟨name, loaded⟩, hlist, hfile⟩ := List.map_eq_singleton_iff.1 hdocs
    obtain ⟨rfl, hfile⟩ := Prod.mk.inj hfile
    have hloaded : ∀ other found, next.store.docs[other]? = some found →
        (other, found) = ("T", loaded) := by
      intro other found hfound
      have hmem := Std.ExtTreeMap.mem_toList_iff_getElem?_eq_some.2 hfound
      rw [hlist] at hmem
      exact List.mem_singleton.1 hmem
    have hthere : next.store.docs["T"]? = some loaded :=
      Std.ExtTreeMap.mem_toList_iff_getElem?_eq_some.1 (by simp [hlist])
    refine ⟨next, after, _, loaded, rfl, hthere, hfile, ?_⟩
    refine Session.read_of_run rfl hclean hrun hthere fun other found hfound hne => ?_
    exact absurd (congrArg Prod.fst (hloaded other found hfound)) hne

end ApiDocs
