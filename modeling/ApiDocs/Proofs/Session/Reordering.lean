import ApiDocs.Proofs.Metadata.Lookup
import ApiDocs.Proofs.Session.Turns

/-!
# The order of declarations

If no two types have one full name, the order in which they are declared does not matter. Each name
has its type to itself, the catalog finds the same type, and the documents are saved in the order of
their names in any case.
-/

namespace ApiDocs

section Keys

variable {α : Type} {key : α → String} {items items' : List α}

/-- With different keys, each of them selects the same from every order of a list. -/
theorem filter_eq_of_perm (h : items'.Perm items) (hnodup : (items.map key).Nodup) (name : String) :
    items'.filter (key · = name) = items.filter (key · = name) := by
  induction h with
  | nil => rfl
  | cons item _ ih =>
    rw [List.filter_cons, List.filter_cons, ih (List.nodup_cons.1 hnodup).2]
  | swap item other rest =>
    have hne : key item ≠ key other := by
      have hmem := (List.nodup_cons.1 hnodup).1
      exact fun heq => hmem (heq ▸ List.mem_cons_self)
    by_cases hitem : key item = name
    · have hother : key other ≠ name := fun heq => hne (hitem.trans heq.symm)
      simp [hitem, hother]
    · simp only [List.filter_cons, hitem, decide_false, Bool.false_eq_true, if_false]
  | trans _ hlast ihfirst ihlast =>
    exact (ihfirst ((hlast.map key).nodup_iff.2 hnodup)).trans (ihlast hnodup)

/-- Lists from which each key selects the same are orders of one another. -/
theorem perm_of_filter_eq [DecidableEq α] (key : α → String)
    (h : ∀ name, items'.filter (key · = name) = items.filter (key · = name)) :
    items'.Perm items := by
  refine List.perm_iff_count.2 fun item => ?_
  have hcount : ∀ list : List α, (list.filter (key · = key item)).count item = list.count item :=
    fun _ => List.count_filter (decide_eq_true rfl)
  rw [← hcount, h, hcount]

end Keys

theorem Catalog.lookup?_of_perm {types types' : List ApiType} {c c' : Catalog}
    (hperm : types'.Perm types) (hnodup : (types.map (·.fullName)).Nodup)
    (h : (ofTypes types).2 = .ok c) (h' : (ofTypes types').2 = .ok c') (name : String) :
    c'.lookup? name = c.lookup? name := by
  rw [lookup?_of_ofTypes h, lookup?_of_ofTypes h', ← List.head?_filter, ← List.head?_filter,
    filter_eq_of_perm hperm hnodup]

namespace Session

variable {s : Session} {d : Disk} {w : Workspace} {types types' : List ApiType} {c c' : Catalog}

theorem filter_asked_of_perm (hperm : types'.Perm types) (hnodup : (types.map (·.fullName)).Nodup)
    (htypes : c.types.toList = types) (htypes' : c'.types.toList = types') (name : String) :
    (s.withCatalog c').asked.filter (·.1.fullName = name) =
      (s.withCatalog c).asked.filter (·.1.fullName = name) := by
  rw [filter_asked, filter_asked]
  simp only [withCatalog, htypes, htypes', filter_eq_of_perm hperm hnodup]
  rfl

/-- Runs over the types in another order take the same turns, and come to hold the same. -/
theorem turns_of_perm (hw : w.ActsOn d) (hperm : types'.Perm types)
    (hnodup : (types.map (·.fullName)).Nodup) (h : (Catalog.ofTypes types).2 = .ok c)
    (h' : (Catalog.ofTypes types').2 = .ok c') :
    ((s.withCatalog c').turns w).Perm ((s.withCatalog c).turns w) ∧
      ∀ name : String, ((s.withCatalog c').traverse w).session.store.docs[name]? =
        ((s.withCatalog c).traverse w).session.store.docs[name]? := by
  have hfinds := Catalog.lookup?_of_perm hperm hnodup h h'
  have hasked := filter_asked_of_perm (s := s) hperm hnodup (Catalog.toList_types_of_ofTypes h)
    (Catalog.toList_types_of_ofTypes h')
  refine ⟨perm_of_filter_eq Turn.fullName fun name => ?_, fun name => ?_⟩
  · rw [filter_turns hw, filter_turns hw, hasked, turnsOf_withCatalog hfinds]
    rfl
  · rw [(follows_traverse hw).2, (follows_traverse hw).2, hasked, serve_withCatalog hfinds]
    rfl

/-- The run over the types in another order comes to the same end, be it a report or a failure. -/
theorem run_of_perm (hempty : s.store.docs = ∅) (hw : w.ActsOn d) (hperm : types'.Perm types)
    (hnodup : (types.map (·.fullName)).Nodup) (h : (Catalog.ofTypes types).2 = .ok c)
    (h' : (Catalog.ofTypes types').2 = .ok c') :
    ((s.withCatalog c').run w).2.2 = ((s.withCatalog c).run w).2.2 ∧
      ∀ place, ((s.withCatalog c').run w).2.1.disk.lookup? place =
        ((s.withCatalog c).run w).2.1.disk.lookup? place := by
  obtain ⟨hturns, hdocs⟩ := turns_of_perm (s := s) hw hperm hnodup h h'
  have hloaded : (s.withCatalog c').loadedDocs w = (s.withCatalog c).loadedDocs w := by
    rw [loadedDocs, loadedDocs, Std.ExtTreeMap.ext_getElem? fun {name} => hdocs name]
  have hreport : ((s.withCatalog c').traverse w).finalReport =
      ((s.withCatalog c).traverse w).finalReport := by
    rw [finalReport_eq_sum_turns (s := s.withCatalog c) hempty hw,
      finalReport_eq_sum_turns (s := s.withCatalog c') hempty hw, (hturns.map Turn.report).sum_eq]
  have hsaving (c : Catalog) : ((s.withCatalog c).saving w).ActsOn d := actsOn_saving hw
  constructor
  · rw [result_run, result_run, hloaded, hreport, DocStore.result_saveEach_congr
      (hsaving c).journal (hsaving c').journal ((hsaving c').disk.trans (hsaving c).disk.symm)]
  · exact (saved_of_run (s := s.withCatalog c) hempty hw).lookup?_congr
      (saved_of_run (s := s.withCatalog c') hempty hw) rfl hdocs

end Session

/-- The order in which types of different full names are declared does not matter. A configured run
gives the same report, or fails in the same way, and leaves the same files. It fails only if the
system refuses to write to a file that it has loaded documentation from. -/
theorem runConfig_of_perm {types types' : List ApiType} {catalog catalog' : Catalog}
    (hperm : types'.Perm types) (hnodup : (types.map (·.fullName)).Nodup)
    (h : (Catalog.ofTypes types).2 = .ok catalog) (h' : (Catalog.ofTypes types').2 = .ok catalog')
    (c : Config) (d : Disk) :
    (runConfig c catalog' { disk := d }).2 = (runConfig c catalog { disk := d }).2 ∧
      (∀ place, (runConfig c catalog' { disk := d }).1.disk.lookup? place =
        (runConfig c catalog { disk := d }).1.disk.lookup? place) ∧
      ((runConfig c catalog { disk := d }).2.isOk = true ↔
        (Session.ofConfig c catalog).MaySave (c.workspace d)) := by
  have hw := c.actsOn_workspace d
  obtain ⟨hresult, hfiles⟩ :=
    Session.run_of_perm (s := Session.ofConfig c catalog) rfl hw hperm hnodup h h'
  exact ⟨hresult, hfiles, Session.isOk_run_iff_maySave rfl hw⟩

namespace Sample

/-- Two types whose documentation is in one file, and the delegate type of both. -/
def sharingTypes : List ApiType :=
  [{ nameSpace := "A", name := "B/C", binding := some { events := ["D"], delegates := ["P"] } },
    { nameSpace := "A/B", name := "C", binding := some { events := ["D"], delegates := ["Q"] } },
    { name := "D", members := [{ name := "M", kind := .method }] }]

def sharedDisk : Disk :=
  let page := "<Type><Members><Member MemberName='M'><Docs><summary/><remarks/></Docs>" ++
    "</Member></Members></Type>"
  ({} : Disk).placeFile "/en/A/B/C.xml" page.toUTF8

end Sample

/-- Both types write to the file. Declared in either order, the same one comes last. -/
theorem runConfig_of_perm_sharing :
    ∃ catalog catalog' after after' report,
      (Catalog.ofTypes Sample.sharingTypes).2 = .ok catalog ∧
      (Catalog.ofTypes Sample.sharingTypes.reverse).2 = .ok catalog' ∧
      report.typesProcessed = 2 ∧ report.merge.eventsDocumented = 2 ∧
      runConfig Sample.config catalog { disk := Sample.sharedDisk } = (after, .ok report) ∧
      runConfig Sample.config catalog' { disk := Sample.sharedDisk } = (after', .ok report) ∧
      ∀ place, after'.disk.lookup? place = after.disk.lookup? place := by
  have hsample :
      (∀ t ∈ Sample.sharingTypes, Catalog.checkBinding t = .ok ()) ∧
        (Sample.sharingTypes.map (·.fullName)).Nodup ∧
        ((Catalog.ofTypes Sample.sharingTypes).2.bind fun catalog =>
          (runConfig Sample.config catalog { disk := Sample.sharedDisk }).2) =
          .ok { typesProcessed := 2, documentsSaved := 2, merge := { eventsDocumented := 2 } } := by
    decide +kernel
  obtain ⟨hpairs, hnodup, hreport⟩ := hsample
  obtain ⟨catalog, h⟩ := Catalog.exists_ofTypes hpairs
  have hpairs' : ∀ t ∈ Sample.sharingTypes.reverse, Catalog.checkBinding t = .ok () := by
    intro t ht
    exact hpairs t (List.mem_reverse.1 ht)
  obtain ⟨catalog', h'⟩ := Catalog.exists_ofTypes hpairs'
  obtain ⟨hresult, hfiles, -⟩ :=
    runConfig_of_perm (List.reverse_perm _) hnodup h h' Sample.config Sample.sharedDisk
  have hrun : (runConfig Sample.config catalog { disk := Sample.sharedDisk }).2 =
      .ok { typesProcessed := 2, documentsSaved := 2, merge := { eventsDocumented := 2 } } := by
    simpa [h, Except.bind] using hreport
  exact ⟨catalog, catalog', _, _, _, h, h', rfl, rfl, Prod.ext rfl hrun,
    Prod.ext rfl (hresult.trans hrun), hfiles⟩

end ApiDocs
