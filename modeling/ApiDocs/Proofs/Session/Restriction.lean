import ApiDocs.Proofs.Session.Turns

/-!
# Runs for one full name

A run that is asked for one full name does what a run over all types does for that name. It holds
the same documentation under it and writes to no other file. What the run over all types reports is
what the runs for its full names report together.
-/

namespace ApiDocs

open Finset

namespace Session

/-- The session that looks at the types of one full name. -/
def restrictedTo (s : Session) (name : String) : Session :=
  { s with onlyType := some name }

/-- The run for one full name, on a disk `d`, and what the run over all types does for it. -/
structure RunsAlone (s : Session) (d : Disk) (name : String) (report : RunReport) : Prop where
  succeeds : ((s.restrictedTo name).run { disk := d }).2.2 = .ok report
  holds : ∀ other : String, ((s.restrictedTo name).run { disk := d }).1.store.docs[other]? =
    if other = name then (s.run { disk := d }).1.store.docs[name]? else none
  /-- No place changes but the file that the documentation of this name was read from. -/
  changes : ∀ place, ((s.restrictedTo name).run { disk := d }).2.1.disk.lookup? place ≠
      d.lookup? place →
    ∃ loaded, (s.run { disk := d }).1.store.docs[name]? = some loaded ∧
      (∃ doc, DocStore.read d loaded.path = .ok doc) ∧ d.locate loaded.path = .ok place

variable {s : Session} {d : Disk} {w : Workspace}

theorem binding?_restrictedTo (hall : s.onlyType = none) (name : String) (t : ApiType) :
    (s.restrictedTo name).binding? t = if t.fullName = name then s.binding? t else none := by
  have hboth : s.binding? t = t.binding := by simp [binding?, hall]
  rw [hboth]
  by_cases hname : t.fullName = name
  · simp [restrictedTo, binding?, hname]
  · simp [restrictedTo, binding?, hname, Ne.symm hname]

theorem asked_restrictedTo (hall : s.onlyType = none) (name : String) :
    (s.restrictedTo name).asked = s.asked.filter (·.1.fullName = name) := by
  rw [asked, asked, List.filter_filterMap]
  refine List.filterMap_congr fun t _ => ?_
  rw [binding?_restrictedTo hall]
  by_cases hname : t.fullName = name <;> cases s.binding? t <;> simp [Option.filter, hname]

/-- The types of a full name take the same turns in both runs. -/
theorem turns_restrictedTo (hall : s.onlyType = none) (hw : w.ActsOn d) (name : String) :
    (s.restrictedTo name).turns w = (s.turns w).filter (·.fullName = name) := by
  have hnames : ∀ turn ∈ (s.restrictedTo name).turns w, turn.fullName = name := by
    intro turn hturn
    have hmem := List.mem_map_of_mem (f := Turn.fullName) hturn
    rw [fullNames_turns hw] at hmem
    obtain ⟨t, ht, hname⟩ := List.mem_map.1 hmem
    have hasked : ((s.restrictedTo name).binding? t).isSome = true := (List.mem_filter.1 ht).2
    rw [binding?_restrictedTo hall] at hasked
    rw [← hname]
    by_contra hne
    simp [hne] at hasked
  calc (s.restrictedTo name).turns w
      = ((s.restrictedTo name).turns w).filter (·.fullName = name) :=
        (List.filter_eq_self.2 fun turn hturn => by simpa using hnames turn hturn).symm
    _ = (s.restrictedTo name).turnsOf d s.store.docs[name]?
          ((s.restrictedTo name).asked.filter (·.1.fullName = name)) := filter_turns hw name
    _ = s.turnsOf d s.store.docs[name]? (s.asked.filter (·.1.fullName = name)) := by
        rw [asked_restrictedTo hall, List.filter_filter]
        simp only [Bool.and_self]
        rfl
    _ = (s.turns w).filter (·.fullName = name) := (filter_turns hw name).symm

theorem docs_restrictedTo (hempty : s.store.docs = ∅) (hall : s.onlyType = none) (hw : w.ActsOn d)
    (name other : String) :
    ((s.restrictedTo name).traverse w).session.store.docs[other]? =
      if other = name then (s.traverse w).session.store.docs[name]? else none := by
  rw [(follows_traverse hw).2 other, (follows_traverse hw).2 name, asked_restrictedTo hall,
    List.filter_filter]
  by_cases hother : other = name
  · subst hother
    simp only [Bool.and_self, if_true]
    rfl
  · have hnone : (s.asked.filter fun job =>
        job.1.fullName = other && job.1.fullName = name) = [] := by
      refine List.filter_eq_nil_iff.2 fun job _ => ?_
      simp only [Bool.and_eq_true, decide_eq_true_eq, not_and]
      exact fun hjob => hjob ▸ hother
    rw [hnone, if_neg hother]
    simp [restrictedTo, hempty]

/-- What the run for one full name loads, the run over all types loads as well. -/
theorem maySave_restrictedTo (hempty : s.store.docs = ∅) (hall : s.onlyType = none)
    (hw : w.ActsOn d) (h : s.MaySave w) (name : String) : (s.restrictedTo name).MaySave w := by
  apply h.of_paths
  intro other loaded hloaded
  rw [docs_restrictedTo hempty hall hw] at hloaded
  split at hloaded
  · next hother => exact ⟨loaded, hother ▸ hloaded, rfl⟩
  · cases hloaded

theorem runsAlone (hempty : s.store.docs = ∅) (hall : s.onlyType = none)
    (h : s.MaySave { disk := d }) (name : String) :
    s.RunsAlone d name
      (((s.turns { disk := d }).filter (·.fullName = name)).map Turn.report).sum := by
  have hw : Workspace.ActsOn { disk := d } d := ⟨rfl, rfl⟩
  have hdocs := docs_restrictedTo hempty hall hw name
  have hsaved := saved_of_run (s := s.restrictedTo name) hempty hw
  constructor
  case succeeds =>
    rw [result_run_of_maySave (s := s.restrictedTo name) hempty hw
      (maySave_restrictedTo hempty hall hw h name), turns_restrictedTo hall hw]
  case holds => exact hdocs
  case changes =>
    intro place hchanged
    obtain ⟨job, -, hloads, hlocate⟩ := hsaved.exists_loads (s := s.restrictedTo name) hempty hw
      hchanged
    obtain ⟨-, doc, hread⟩ := hloads.exists_read
    have hloaded := docs_of_loads (s := s.restrictedTo name) hempty hw hloads hread
    rw [hdocs] at hloaded
    split at hloaded
    · exact ⟨_, hloaded, ⟨doc, hread⟩, hlocate⟩
    · cases hloaded

/-- A run over all types that begins with nothing fails only if the system refuses to write to a
file. If it succeeds, so does the run for each full name, and the reports of these add up to its
own. -/
theorem run_eq_sum_restricted (catalog : Catalog) (root : String) (options : MergeOptions)
    (library : Option FragmentLibrary) (d : Disk) :
    let s : Session := { catalog, store := { root }, options, library }
    ((s.run { disk := d }).2.2.isOk = true ↔ s.MaySave { disk := d }) ∧
      ∀ total, (s.run { disk := d }).2.2 = .ok total →
        ∃ report : String → RunReport, (∀ name, s.RunsAlone d name (report name)) ∧
          total = ∑ name ∈ (catalog.types.toList.map (·.fullName)).toFinset, report name := by
  intro s
  have hw : Workspace.ActsOn { disk := d } d := ⟨rfl, rfl⟩
  refine ⟨isOk_run_iff_maySave rfl hw, fun total htotal => ?_⟩
  have hmay : s.MaySave { disk := d } := maySave_of_run_eq_ok rfl hw htotal
  refine ⟨_, runsAlone (s := s) rfl rfl hmay, ?_⟩
  have hnames : ∀ turn ∈ s.turns { disk := d },
      turn.fullName ∈ (catalog.types.toList.map (·.fullName)).toFinset := by
    intro turn hturn
    have hmem := List.mem_map_of_mem (f := Turn.fullName) hturn
    rw [fullNames_turns hw] at hmem
    exact List.mem_toFinset.2 (List.map_subset _ (List.filter_subset_self _) hmem)
  rw [result_run_of_maySave rfl hw hmay, sum_map_eq_sum_filter hnames] at htotal
  exact (Except.ok.inj htotal).symm

end Session

namespace Sample

/-- A type that is declared twice, around one without documentation. -/
def aroundCatalog : Catalog where
  types := #[{ name := "T", binding := some {} }, { name := "U", binding := some {} },
    { name := "T", binding := some {} }]
  positions := (Std.ExtTreeMap.empty.insert "T" 0).insert "U" 1

def around : Session where
  catalog := aroundCatalog
  store := { root := "en" }

def aroundDisk : Disk := ({} : Disk).placeFile "en/T.xml" "<Type/>".toUTF8

end Sample

/-- Both declarations of the type take their turns in the run for its name. -/
theorem Session.run_eq_sum_restricted_around :
    (Sample.around.run { disk := Sample.aroundDisk }).2.2 =
        .ok { typesProcessed := 2, typesSkipped := 1, documentsSaved := 1 } ∧
      ∃ report : String → RunReport,
        (∀ name, Sample.around.RunsAlone Sample.aroundDisk name (report name)) ∧
        report "T" = { typesProcessed := 2, documentsSaved := 1 } ∧
        report "U" = { typesSkipped := 1 } := by
  have hruns :
      (Sample.around.run { disk := Sample.aroundDisk }).2.2 =
          .ok { typesProcessed := 2, typesSkipped := 1, documentsSaved := 1 } ∧
        ((Sample.around.restrictedTo "T").run { disk := Sample.aroundDisk }).2.2 =
          .ok { typesProcessed := 2, documentsSaved := 1 } ∧
        ((Sample.around.restrictedTo "U").run { disk := Sample.aroundDisk }).2.2 =
          .ok { typesSkipped := 1 } := by
    decide +kernel
  obtain ⟨htotal, hfirst, hother⟩ := hruns
  obtain ⟨-, hrestricted⟩ :=
    Session.run_eq_sum_restricted Sample.aroundCatalog "en" {} none Sample.aroundDisk
  obtain ⟨report, halone, -⟩ := hrestricted _ htotal
  have hreport (name : String) (expected : RunReport)
      (h : ((Sample.around.restrictedTo name).run { disk := Sample.aroundDisk }).2.2 =
        .ok expected) : report name = expected :=
    Except.ok.inj ((halone name).succeeds.symm.trans h)
  exact ⟨htotal, report, halone, hreport "T" _ hfirst, hreport "U" _ hother⟩

end ApiDocs
