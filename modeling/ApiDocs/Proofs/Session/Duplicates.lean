import ApiDocs.Proofs.Metadata.Lookup
import ApiDocs.Proofs.Session.Sequence
import ApiDocs.Proofs.Session.Turns

/-!
# Types that are declared again

A catalog keeps the types whose full name came up before, and a run gives them turns of their own.
So the run does what it does without them, and beyond that what they do in these turns: their
documentation is merged into what the first type of the name has left, or loaded if it was not.
-/

namespace ApiDocs

namespace MergeReport

theorem add_eq_left {a b : MergeReport} : a + b = a ↔ b = 0 := by
  cases a
  cases b
  simp [add_def, zero_def]

theorem add_eq_zero {a b : MergeReport} : a + b = 0 ↔ a = 0 ∧ b = 0 := by
  cases a
  cases b
  simp only [add_def, zero_def, mk.injEq, Nat.add_eq_zero_iff]
  tauto

end MergeReport

/-- The turn loads nothing and documents nothing. -/
def Turn.IsIdle (turn : Turn) : Prop :=
  ∀ merged ∈ turn.merged,
    turn.wasLoaded = true ∧ merged.fieldsMerged = 0 ∧ merged.eventsDocumented = 0

instance {turn : Turn} : Decidable turn.IsIdle :=
  inferInstanceAs (Decidable (∀ merged ∈ turn.merged,
    turn.wasLoaded = true ∧ merged.fieldsMerged = 0 ∧ merged.eventsDocumented = 0))

theorem merge_sum_report_eq_zero_iff {turns : List Turn} :
    (turns.map Turn.report).sum.merge = 0 ↔ ∀ turn ∈ turns, turn.report.merge = 0 := by
  induction turns with
  | nil => simp [RunReport.zero_def]
  | cons turn rest ih =>
    rw [List.map_cons, List.sum_cons, RunReport.add_def, MergeReport.add_eq_zero, ih,
      List.forall_mem_cons]

namespace Session

/-- The turns of types whose full name was seen before, when a run has come to some type. -/
def laterTurnsFrom (seen : List String) (p : Progress) : List ApiType → List Turn
  | [] => []
  | t :: rest =>
    (if t.fullName ∈ seen then p.turn t else []) ++
      laterTurnsFrom (t.fullName :: seen) (p.step t) rest

/-- The turns of the types whose full name a type before them has. -/
def laterTurns (s : Session) (w : Workspace) : List Turn :=
  laterTurnsFrom [] { session := s, workspace := w } s.catalog.types.toList

variable {s : Session} {d : Disk} {w : Workspace} {p p' : Progress} {t : ApiType}
  {first : Catalog} {seen : List String}

/-! ## One turn -/

theorem serve_of_isIdle {held : Option LoadedDoc} {job : ApiType × EventBinding}
    (h : (s.turnOf d held job).IsIdle) : s.serve d held job = held := by
  cases held with
  | none =>
    cases hload : s.store.load? d job.1 with
    | none => rw [serve, hload]; rfl
    | some loaded => simp [Turn.IsIdle, turnOf, hload] at h
  | some loaded =>
    obtain ⟨-, hfields, hevents⟩ := h (s.merged d job loaded.doc).report rfl
    have hkept : (s.merged d job loaded.doc).doc = loaded.doc :=
      countsChanges_mergeType _ _ _ _ _ loaded.doc hfields hevents
    rw [serve, Option.some_or, Option.map_some, hkept]

theorem docs_step_of_isIdle (h : s.Follows d p) (hidle : ∀ turn ∈ p.turn t, turn.IsIdle)
    (name : String) :
    (p.step t).session.store.docs[name]? = p.session.store.docs[name]? := by
  rw [docs_step h]
  rw [h.turn_eq] at hidle
  cases hbinding : s.binding? t with
  | none => rfl
  | some binding =>
    by_cases hname : t.fullName = name
    · subst hname
      have hturn := hidle (s.turnOf d p.session.store.docs[t.fullName]? (t, binding))
        (by simp [hbinding])
      simp [serve_of_isIdle hturn]
    · simp [hname]

theorem docs_step_of_ne (h : s.Follows d p) {name : String} (hname : t.fullName ≠ name) :
    (p.step t).session.store.docs[name]? = p.session.store.docs[name]? := by
  rw [docs_step h]
  simp [hname]

/-- A type whose full name is not seen takes the same turn in both runs. -/
theorem turn_withCatalog (hfinds : ∀ name, first.lookup? name = s.catalog.lookup? name)
    (h : s.Follows d p) (h' : (s.withCatalog first).Follows d p')
    (hdocs : p'.session.store.docs[t.fullName]? = p.session.store.docs[t.fullName]?) :
    p'.turn t = p.turn t := by
  rw [h.turn_eq, h'.turn_eq, hdocs, turnOf_withCatalog hfinds]
  rfl

theorem docs_step_withCatalog (hfinds : ∀ name, first.lookup? name = s.catalog.lookup? name)
    (h : s.Follows d p) (h' : (s.withCatalog first).Follows d p') {name : String}
    (hdocs : p'.session.store.docs[name]? = p.session.store.docs[name]?) :
    (p'.step t).session.store.docs[name]? = (p.step t).session.store.docs[name]? := by
  rw [docs_step h, docs_step h', hdocs, serve_withCatalog hfinds]
  rfl

/-! ## All turns -/

/-- What is seen stays out of account if a type of a seen full name is passed over. -/
theorem docs_step_of_seen (h : s.Follows d p)
    (hdocs : ∀ name ∉ seen, p'.session.store.docs[name]? = p.session.store.docs[name]?) :
    ∀ name ∉ t.fullName :: seen, p'.session.store.docs[name]? =
      (p.step t).session.store.docs[name]? := by
  intro name hname
  rw [docs_step_of_ne h (List.ne_of_not_mem_cons hname).symm,
    hdocs name (List.not_mem_of_not_mem_cons hname)]

theorem docs_step_of_unseen (hfinds : ∀ name, first.lookup? name = s.catalog.lookup? name)
    (h : s.Follows d p) (h' : (s.withCatalog first).Follows d p')
    (hdocs : ∀ name ∉ seen, p'.session.store.docs[name]? = p.session.store.docs[name]?) :
    ∀ name ∉ t.fullName :: seen, (p'.step t).session.store.docs[name]? =
      (p.step t).session.store.docs[name]? := by
  intro name hname
  exact docs_step_withCatalog hfinds h h' (hdocs name (List.not_mem_of_not_mem_cons hname))

/-- The turns over all types are those over the unseen ones, and the later ones in between. -/
theorem turns_unseenTypes (hfinds : ∀ name, first.lookup? name = s.catalog.lookup? name)
    (h : s.Follows d p) (h' : (s.withCatalog first).Follows d p')
    (hdocs : ∀ name ∉ seen, p'.session.store.docs[name]? = p.session.store.docs[name]?)
    (types : List ApiType) :
    (traceFold Progress.step Progress.turn p types).Perm
      (traceFold Progress.step Progress.turn p' (unseenTypes seen types) ++
        laterTurnsFrom seen p types) := by
  -- the runs hold the same under all names that are not seen
  induction types generalizing seen p p' with
  | nil => exact .refl _
  | cons t rest ih =>
    rw [traceFold_cons, laterTurnsFrom, unseenTypes]
    by_cases hseen : t.fullName ∈ seen
    · have hrest := docs_step_of_seen (t := t) h hdocs
      rw [if_pos hseen, if_pos hseen]
      exact ((ih (follows_step h t) h' hrest).append_left _).trans
        (List.perm_append_comm_assoc _ _ _)
    · have hrest := docs_step_of_unseen (t := t) hfinds h h' hdocs
      rw [if_neg hseen, if_neg hseen, traceFold_cons,
        turn_withCatalog hfinds h h' (hdocs t.fullName hseen), List.nil_append, List.append_assoc]
      exact (ih (follows_step h t) (follows_step h' t) hrest).append_left _

theorem docs_unseenTypes (hfinds : ∀ name, first.lookup? name = s.catalog.lookup? name)
    (h : s.Follows d p) (h' : (s.withCatalog first).Follows d p')
    (hdocs : ∀ name : String, p'.session.store.docs[name]? = p.session.store.docs[name]?)
    {types : List ApiType} (hidle : ∀ turn ∈ laterTurnsFrom seen p types, turn.IsIdle)
    (name : String) :
    ((unseenTypes seen types).foldl Progress.step p').session.store.docs[name]? =
      (types.foldl Progress.step p).session.store.docs[name]? := by
  induction types generalizing seen p p' with
  | nil => exact hdocs name
  | cons t rest ih =>
    rw [laterTurnsFrom] at hidle
    obtain ⟨hturn, hlater⟩ := List.forall_mem_append.1 hidle
    rw [unseenTypes, List.foldl_cons]
    by_cases hseen : t.fullName ∈ seen
    · rw [if_pos hseen] at hturn
      rw [if_pos hseen]
      refine ih (follows_step h t) h' (fun name => ?_) hlater
      rw [docs_step_of_isIdle h hturn, hdocs]
    · rw [if_neg hseen, List.foldl_cons]
      exact ih (follows_step h t) (follows_step h' t)
        (fun name => docs_step_withCatalog hfinds h h' (hdocs name)) hlater

/-- What is held keeps the path that it was loaded from. -/
theorem path_step (h : s.Follows d p) {name : String} {loaded : LoadedDoc}
    (hloaded : p.session.store.docs[name]? = some loaded) :
    ∃ next : LoadedDoc, (p.step t).session.store.docs[name]? = some next ∧
      next.path = loaded.path := by
  rw [docs_step h, hloaded]
  cases s.binding? t with
  | none => exact ⟨loaded, rfl, rfl⟩
  | some binding =>
    by_cases hname : t.fullName = name
    · simp [hname, serve]
    · simp [hname]

/-- What the run over the unseen types holds, the run over all types has loaded from the same file. -/
theorem paths_unseenTypes (hfinds : ∀ name, first.lookup? name = s.catalog.lookup? name)
    (h : s.Follows d p) (h' : (s.withCatalog first).Follows d p')
    (hdocs : ∀ name ∉ seen, p'.session.store.docs[name]? = p.session.store.docs[name]?)
    (hpaths : ∀ (name : String) (loaded : LoadedDoc), p'.session.store.docs[name]? = some loaded →
      ∃ found, p.session.store.docs[name]? = some found ∧ found.path = loaded.path)
    (types : List ApiType) {name : String} {loaded : LoadedDoc}
    (hloaded : ((unseenTypes seen types).foldl Progress.step p').session.store.docs[name]? =
      some loaded) :
    ∃ found, (types.foldl Progress.step p).session.store.docs[name]? = some found ∧
      found.path = loaded.path := by
  induction types generalizing seen p p' with
  | nil => exact hpaths name loaded hloaded
  | cons t rest ih =>
    rw [unseenTypes] at hloaded
    rw [List.foldl_cons]
    by_cases hseen : t.fullName ∈ seen
    · rw [if_pos hseen] at hloaded
      refine ih (follows_step h t) h' (docs_step_of_seen h hdocs) ?_ hloaded
      intro name loaded hheld
      obtain ⟨found, hfound, hpath⟩ := hpaths name loaded hheld
      obtain ⟨next, hnext, hkept⟩ := path_step (t := t) h hfound
      exact ⟨next, hnext, hkept.trans hpath⟩
    · rw [if_neg hseen, List.foldl_cons] at hloaded
      refine ih (follows_step h t) (follows_step h' t) (docs_step_of_unseen hfinds h h' hdocs) ?_
        hloaded
      intro name loaded hheld
      by_cases hname : t.fullName = name
      · -- both runs come to this name for the first time
        subst hname
        have hsame := docs_step_withCatalog hfinds h h' (t := t) (hdocs t.fullName hseen)
        exact ⟨loaded, hsame.symm.trans hheld, rfl⟩
      · rw [docs_step_of_ne h' hname] at hheld
        rw [docs_step_of_ne h hname]
        exact hpaths name loaded hheld

section Declared

variable {types : List ApiType} {catalog : Catalog}

theorem turns_firstTypes (hw : w.ActsOn d) (h : (Catalog.ofTypes types).2 = .ok catalog)
    (hfirst : (Catalog.ofTypes (firstTypes types)).2 = .ok first)
    (hfinds : ∀ name, first.lookup? name = catalog.lookup? name) :
    ((s.withCatalog catalog).turns w).Perm
      ((s.withCatalog first).turns w ++ (s.withCatalog catalog).laterTurns w) := by
  have htypes : (s.withCatalog catalog).catalog.types.toList = types :=
    Catalog.toList_types_of_ofTypes h
  have hfirsts : (s.withCatalog first).catalog.types.toList = firstTypes types :=
    Catalog.toList_types_of_ofTypes hfirst
  rw [turns, turns, laterTurns, htypes, hfirsts]
  exact turns_unseenTypes (s := s.withCatalog catalog) hfinds (follows_start hw) (follows_start hw)
    (fun _ _ => rfl) types

theorem docs_firstTypes (hw : w.ActsOn d) (h : (Catalog.ofTypes types).2 = .ok catalog)
    (hfirst : (Catalog.ofTypes (firstTypes types)).2 = .ok first)
    (hfinds : ∀ name, first.lookup? name = catalog.lookup? name)
    (hidle : ∀ turn ∈ (s.withCatalog catalog).laterTurns w, turn.IsIdle) (name : String) :
    ((s.withCatalog first).traverse w).session.store.docs[name]? =
      ((s.withCatalog catalog).traverse w).session.store.docs[name]? := by
  have htypes : (s.withCatalog catalog).catalog.types.toList = types :=
    Catalog.toList_types_of_ofTypes h
  have hfirsts : (s.withCatalog first).catalog.types.toList = firstTypes types :=
    Catalog.toList_types_of_ofTypes hfirst
  rw [laterTurns, htypes] at hidle
  rw [traverse, traverse, htypes, hfirsts]
  exact docs_unseenTypes (s := s.withCatalog catalog) hfinds (follows_start hw) (follows_start hw)
    (fun _ => rfl) hidle name

/-- What the run over the first types loads, the run over all of them loads as well. -/
theorem maySave_firstTypes (hempty : s.store.docs = ∅) (hw : w.ActsOn d)
    (h : (Catalog.ofTypes types).2 = .ok catalog)
    (hfirst : (Catalog.ofTypes (firstTypes types)).2 = .ok first)
    (hfinds : ∀ name, first.lookup? name = catalog.lookup? name)
    (hmay : (s.withCatalog catalog).MaySave w) : (s.withCatalog first).MaySave w := by
  have htypes : (s.withCatalog catalog).catalog.types.toList = types :=
    Catalog.toList_types_of_ofTypes h
  have hfirsts : (s.withCatalog first).catalog.types.toList = firstTypes types :=
    Catalog.toList_types_of_ofTypes hfirst
  apply hmay.of_paths
  intro name loaded hloaded
  rw [traverse, hfirsts] at hloaded
  rw [traverse, htypes]
  exact paths_unseenTypes (s := s.withCatalog catalog) hfinds (follows_start hw) (follows_start hw)
    (fun _ _ => rfl) (fun name loaded hheld => by simp [withCatalog, hempty] at hheld) types hloaded

/-- A run that succeeds reports what the run over the first types of each full name reports, and what
the turns of the later ones report. If these are idle, both runs leave the same files. A run fails
only if the system refuses to write to a file that it has loaded documentation from. -/
theorem run_firstTypes (hempty : s.store.docs = ∅) (hw : w.ActsOn d)
    (h : (Catalog.ofTypes types).2 = .ok catalog) :
    ∃ first, (Catalog.ofTypes (firstTypes types)).2 = .ok first ∧
      (((s.withCatalog catalog).run w).2.2.isOk = true ↔ (s.withCatalog catalog).MaySave w) ∧
      (∀ report, ((s.withCatalog catalog).run w).2.2 = .ok report →
        ∃ report', ((s.withCatalog first).run w).2.2 = .ok report' ∧
          report = report' + (((s.withCatalog catalog).laterTurns w).map Turn.report).sum ∧
          (report.merge = report'.merge ↔
            ∀ turn ∈ (s.withCatalog catalog).laterTurns w, turn.report.merge = 0)) ∧
      ((∀ turn ∈ (s.withCatalog catalog).laterTurns w, turn.IsIdle) →
        ∀ place, ((s.withCatalog catalog).run w).2.1.disk.lookup? place =
          ((s.withCatalog first).run w).2.1.disk.lookup? place) := by
  obtain ⟨first, hfirst, hfinds⟩ := Catalog.exists_ofTypes_firstTypes h
  have hsum := ((turns_firstTypes (s := s) hw h hfirst hfinds).map Turn.report).sum_eq
  rw [List.map_append, List.sum_append] at hsum
  refine ⟨first, hfirst, isOk_run_iff_maySave hempty hw, fun report hreport => ?_, fun hidle => ?_⟩
  · have hmay : (s.withCatalog catalog).MaySave w := maySave_of_run_eq_ok hempty hw hreport
    have hmay' := maySave_firstTypes hempty hw h hfirst hfinds hmay
    rw [result_run_of_maySave (s := s.withCatalog catalog) hempty hw hmay] at hreport
    obtain rfl := Except.ok.inj hreport
    refine ⟨_, result_run_of_maySave (s := s.withCatalog first) hempty hw hmay', hsum, ?_⟩
    rw [hsum, RunReport.add_def, MergeReport.add_eq_left, merge_sum_report_eq_zero_iff]
  · exact (saved_of_run (s := s.withCatalog first) hempty hw).lookup?_congr
      (saved_of_run (s := s.withCatalog catalog) hempty hw) rfl fun name =>
        (docs_firstTypes hw h hfirst hfinds hidle name).symm

end Declared

end Session

namespace Sample

/-- A type that is declared twice, with a delegate type in between. -/
def twice (binding again : EventBinding) : List ApiType :=
  [{ name := "T", binding := some binding },
    { name := "D", members := [{ name := "F", kind := .method }] },
    { name := "T", binding := some again }]

def binding : EventBinding where
  events := ["D"]
  delegates := ["P"]

def plainDisk : Disk :=
  let page := "<Type><Members><Member MemberName='F'><Docs><summary/><remarks/></Docs>" ++
    "</Member></Members></Type>"
  ({} : Disk).placeFile "/en/T.xml" page.toUTF8

end Sample

/-- The second declaration has nothing to merge, so it does not matter. -/
theorem Session.run_firstTypes_idle :
    ∃ catalog first after after' report report',
      (Catalog.ofTypes (Sample.twice Sample.binding {})).2 = .ok catalog ∧
      (Catalog.ofTypes (firstTypes (Sample.twice Sample.binding {}))).2 = .ok first ∧
      (Sample.session.withCatalog catalog).laterTurns { disk := Sample.plainDisk } =
        [{ fullName := "T", wasLoaded := true, merged := some 0 }] ∧
      ((Sample.session.withCatalog catalog).run { disk := Sample.plainDisk }).2 =
        (after, .ok report) ∧
      ((Sample.session.withCatalog first).run { disk := Sample.plainDisk }).2 =
        (after', .ok report') ∧
      report.merge = report'.merge ∧
      ∀ place, after.disk.lookup? place = after'.disk.lookup? place := by
  have hsample :
      (∀ t ∈ Sample.twice Sample.binding {}, Catalog.checkBinding t = .ok ()) ∧
        ((Catalog.ofTypes (Sample.twice Sample.binding {})).2.map fun catalog =>
          ((Sample.session.withCatalog catalog).laterTurns { disk := Sample.plainDisk },
            decide ((Sample.session.withCatalog catalog).MaySave { disk := Sample.plainDisk }))) =
          .ok ([{ fullName := "T", wasLoaded := true, merged := some 0 }], true) := by
    decide +kernel
  obtain ⟨hpairs, hsample⟩ := hsample
  obtain ⟨catalog, h⟩ := Catalog.exists_ofTypes hpairs
  simp only [h, Except.map, Except.ok.injEq, Prod.mk.injEq, decide_eq_true_eq] at hsample
  obtain ⟨hlater, hmay⟩ := hsample
  obtain ⟨first, hfirst, -, hreports, hfiles⟩ :=
    Session.run_firstTypes (s := Sample.session) (w := { disk := Sample.plainDisk }) rfl
      ⟨rfl, rfl⟩ h
  have hreport := Session.result_run_of_maySave rfl ⟨rfl, rfl⟩ hmay
  obtain ⟨report', hreport', -, hcounts⟩ := hreports _ hreport
  rw [hlater] at hcounts hfiles
  exact ⟨catalog, first, _, _, _, report', h, hfirst, hlater, Prod.ext rfl hreport,
    Prod.ext rfl hreport', hcounts.2 (by decide), hfiles (by decide)⟩

namespace Sample

/-- What a run over the types counts, and the size of the file that it leaves. -/
def outcome (types : List ApiType) : Except Failure (Except Failure MergeReport × Option Nat) :=
  (Catalog.ofTypes types).2.map fun catalog =>
    let (_, after, report) := (session.withCatalog catalog).run { disk := plainDisk }
    let size : Disk.Entry → Nat
      | .directory => 0
      | .file content => content.size
    (report.map (·.merge), (after.disk.lookup? ["T.xml", "en"]).map size)

end Sample

/-- The second declaration brings the delegate type. It is merged, although the catalog tells that
it keeps the first one. -/
theorem Session.run_firstTypes_merged :
    ∃ catalog first, Catalog.ofTypes (Sample.twice {} Sample.binding) =
        ([.duplicateType "T"], .ok catalog) ∧
      (Catalog.ofTypes (firstTypes (Sample.twice {} Sample.binding))).2 = .ok first ∧
      ((Sample.session.withCatalog catalog).run { disk := Sample.plainDisk }).2.2.map (·.merge) =
        .ok { eventsDocumented := 1 } ∧
      ((Sample.session.withCatalog first).run { disk := Sample.plainDisk }).2.2.map (·.merge) =
        .ok {} ∧
      ∃ place,
        ((Sample.session.withCatalog catalog).run { disk := Sample.plainDisk }).2.1.disk.lookup?
            place ≠
          ((Sample.session.withCatalog first).run { disk := Sample.plainDisk }).2.1.disk.lookup?
            place := by
  have hsample :
      (∀ t ∈ Sample.twice {} Sample.binding, Catalog.checkBinding t = .ok ()) ∧
        (Catalog.ofTypes (Sample.twice {} Sample.binding)).1 = [.duplicateType "T"] ∧
        Sample.outcome (Sample.twice {} Sample.binding) =
          .ok (.ok { eventsDocumented := 1 }, some 327) ∧
        Sample.outcome (firstTypes (Sample.twice {} Sample.binding)) = .ok (.ok {}, some 149) := by
    decide +kernel
  obtain ⟨hpairs, hnotices, houtcome, houtcome'⟩ := hsample
  obtain ⟨catalog, h⟩ := Catalog.exists_ofTypes hpairs
  obtain ⟨first, hfirst, -⟩ := Catalog.exists_ofTypes_firstTypes h
  simp only [Sample.outcome, h, hfirst, Except.map, Except.ok.injEq, Prod.mk.injEq]
    at houtcome houtcome'
  refine ⟨catalog, first, Prod.ext hnotices h, hfirst, houtcome.1, houtcome'.1, ["T.xml", "en"],
    fun hsame => ?_⟩
  rw [hsame, houtcome'.2] at houtcome
  simp at houtcome

end ApiDocs
