import Mathlib.Algebra.BigOperators.Group.Finset.Piecewise
import ApiDocs.Proofs.Merge.Counting
import ApiDocs.Proofs.Session.Footprint

/-!
# Turns

Each type that a run looks at has its turn: it is skipped, or its documentation is merged. A report
adds up what the turns report. Turns of different full names do not depend on one another, so a
report can also be added up name by name.
-/

namespace ApiDocs

open Finset

/-! ## Reports add up -/

namespace MergeReport

instance : Zero MergeReport := ⟨{}⟩

theorem zero_def : (0 : MergeReport) = {} := rfl

instance : AddCommMonoid MergeReport where
  add_assoc a b c := by simp only [add_def, Nat.add_assoc]
  zero_add a := by simp only [zero_def, add_def, Nat.zero_add]
  add_zero a := by simp only [zero_def, add_def, Nat.add_zero]
  add_comm a b := by simp only [add_def, Nat.add_comm]
  nsmul := nsmulRec

end MergeReport

namespace RunReport

instance : Add RunReport where
  add a b :=
    { typesProcessed := a.typesProcessed + b.typesProcessed
      typesSkipped := a.typesSkipped + b.typesSkipped
      documentsSaved := a.documentsSaved + b.documentsSaved
      merge := a.merge + b.merge }

theorem add_def (a b : RunReport) :
    a + b = ⟨a.typesProcessed + b.typesProcessed, a.typesSkipped + b.typesSkipped,
      a.documentsSaved + b.documentsSaved, a.merge + b.merge⟩ := rfl

instance : Zero RunReport := ⟨{}⟩

theorem zero_def : (0 : RunReport) = { merge := 0 } := rfl

instance : AddCommMonoid RunReport where
  add_assoc a b c := by simp only [add_def, add_assoc]
  zero_add a := by simp only [zero_def, add_def, zero_add]
  add_zero a := by simp only [zero_def, add_def, add_zero]
  add_comm a b := by simp only [add_def, add_comm]
  nsmul := nsmulRec

end RunReport

/-- A sum can be taken key by key. -/
theorem sum_map_eq_sum_filter {α M : Type} [AddCommMonoid M] {key : α → String}
    {names : Finset String} {items : List α} (h : ∀ item ∈ items, key item ∈ names) (f : α → M) :
    (items.map f).sum = ∑ name ∈ names, ((items.filter (key · = name)).map f).sum := by
  induction items with
  | nil => simp
  | cons item rest ih =>
    obtain ⟨hitem, hrest⟩ := List.forall_mem_cons.1 h
    have hsplit : ∀ name, (((item :: rest).filter (key · = name)).map f).sum =
        (if key item = name then f item else 0) + ((rest.filter (key · = name)).map f).sum := by
      intro name
      by_cases hname : key item = name <;> simp [hname]
    simp only [hsplit, sum_add_distrib, sum_ite_eq, if_pos hitem, List.map_cons, List.sum_cons,
      ih hrest]

/-! ## Turns of a run -/

/-- What became of a type that a run has looked at. -/
structure Turn where
  fullName : String
  /-- The documentation of this full name was loaded before. -/
  wasLoaded : Bool
  /-- What the merge reported. A type without documentation is skipped. -/
  merged : Option MergeReport
  deriving DecidableEq, Repr

/-- What a turn adds to the report of the run. -/
def Turn.report (turn : Turn) : RunReport :=
  match turn.merged with
  | none => { typesSkipped := 1 }
  | some merged =>
    { typesProcessed := 1, documentsSaved := if turn.wasLoaded then 0 else 1, merge := merged }

theorem sum_report (turns : List Turn) :
    (turns.map Turn.report).sum =
      { typesProcessed := turns.countP (·.merged.isSome)
        typesSkipped := turns.countP (·.merged.isNone)
        documentsSaved := turns.countP fun turn => turn.merged.isSome && !turn.wasLoaded
        merge := (turns.filterMap (·.merged)).sum } := by
  induction turns with
  | nil => rfl
  | cons turn rest ih =>
    obtain ⟨fullName, wasLoaded, merged⟩ := turn
    rw [List.map_cons, List.sum_cons, ih, RunReport.add_def]
    cases merged with
    | none => simp [Turn.report, Nat.add_comm, ← MergeReport.zero_def]
    | some merged => cases wasLoaded <;> simp [Turn.report, Nat.add_comm]

namespace Session

/-- The turn of a type, if the run looks at it. -/
def Progress.turn (p : Progress) (t : ApiType) : List Turn :=
  (p.session.binding? t).toList.map fun binding =>
    { fullName := t.fullName
      wasLoaded := p.session.store.isLoaded t.fullName
      merged := (p.session.store.get p.workspace.disk t).2.2.map fun doc =>
        (p.session.merged p.workspace.disk (t, binding) doc).report }

def turns (s : Session) (w : Workspace) : List Turn :=
  traceFold Progress.step Progress.turn { session := s, workspace := w } s.catalog.types.toList

/-- The turn of a type when `held` is held under its full name. -/
def turnOf (s : Session) (d : Disk) (held : Option LoadedDoc) (job : ApiType × EventBinding) :
    Turn where
  fullName := job.1.fullName
  wasLoaded := held.isSome
  merged := (held.or (s.store.load? d job.1)).map fun loaded =>
    (s.merged d job loaded.doc).report

/-- The turns of types of one full name, under which `held` is held in the beginning. -/
def turnsOf (s : Session) (d : Disk) (held : Option LoadedDoc)
    (jobs : List (ApiType × EventBinding)) : List Turn :=
  traceFold (s.serve d) (fun held job => [s.turnOf d held job]) held jobs

variable {s : Session} {d : Disk} {w : Workspace} {p : Progress} {t : ApiType}

theorem get_eq (store : DocStore) (d : Disk) (t : ApiType) :
    (store.get d t).2.2 = ((store.docs[t.fullName]?).or (store.load? d t)).map (·.doc) := by
  rcases store.get_cases d t with ⟨notices, hget, hnothing⟩ |
    ⟨notices, next, loaded, hget, hgives, -⟩
  · have hnone : (store.docs[t.fullName]?).or (store.load? d t) = none :=
      Option.eq_none_iff_forall_ne_some.2 fun loaded hloaded =>
        hnothing loaded (gives_iff.2 hloaded)
    rw [hget, hnone]
    rfl
  · rw [hget, gives_iff.1 hgives]
    rfl

theorem Follows.merged_eq (h : s.Follows d p) : p.session.merged d = s.merged d := by
  rw [h.session]
  rfl

theorem Follows.binding?_eq (h : s.Follows d p) : p.session.binding? = s.binding? := by
  rw [h.session]
  rfl

theorem Follows.turn_eq (h : s.Follows d p) (t : ApiType) :
    p.turn t = (s.binding? t).toList.map fun binding =>
      s.turnOf d p.session.store.docs[t.fullName]? (t, binding) := by
  have hloaded : p.session.store.isLoaded t.fullName =
      (p.session.store.docs[t.fullName]?).isSome := Std.ExtTreeMap.contains_eq_isSome_getElem?
  simp only [Progress.turn, turnOf, h.actsOn.disk, h.binding?_eq, h.merged_eq, get_eq, h.load?_eq,
    Option.map_map, hloaded, Function.comp_def]

theorem size_of_docs {store next : DocStore} {name : String} {loaded : LoadedDoc}
    (h : ∀ other, next.docs[other]? = if name = other then some loaded else store.docs[other]?) :
    next.docs.size = store.docs.size + if store.isLoaded name then 0 else 1 := by
  have hdocs : next.docs = store.docs.insert name loaded := by
    refine Std.ExtTreeMap.ext_getElem? fun other => ?_
    rw [h, Std.ExtTreeMap.getElem?_insert]
    simp
  rw [hdocs, Std.ExtTreeMap.size_insert, DocStore.isLoaded]
  by_cases hname : store.docs.contains name <;> simp [hname]

theorem traceFold_cons {σ α β : Type} (step : σ → α → σ) (out : σ → α → List β) (state : σ)
    (item : α) (rest : List α) : traceFold step out state (item :: rest) =
      out state item ++ traceFold step out (step state item) rest := rfl

/-- The types of one full name that a run looks at are among the declared types of that name. -/
theorem filter_asked (s : Session) (name : String) :
    s.asked.filter (·.1.fullName = name) =
      (s.catalog.types.toList.filter (·.fullName = name)).filterMap fun t =>
        (s.binding? t).map (t, ·) := by
  rw [asked, List.filter_filterMap, List.filterMap_filter]
  refine List.filterMap_congr fun t _ => ?_
  by_cases hname : t.fullName = name <;> cases s.binding? t <;> simp [Option.filter, hname]

/-! ## One turn -/

theorem follows_step (h : s.Follows d p) (t : ApiType) : s.Follows d (p.step t) := by
  rw [step_eq]
  split
  · exact h
  · next binding _ => exact (follows_visit h t binding).1

theorem docs_step (h : s.Follows d p) (t : ApiType) (name : String) :
    (p.step t).session.store.docs[name]? =
      ((s.binding? t).toList.filter fun _ => t.fullName = name).foldl
        (fun held binding => s.serve d held (t, binding)) p.session.store.docs[name]? := by
  rw [step_eq, h.binding?_eq]
  cases s.binding? t with
  | none => rfl
  | some binding =>
    simp only [(follows_visit h t binding).2 name]
    by_cases hname : t.fullName = name <;> simp [hname]

/-- The report of a run grows by what each turn reports. -/
theorem finalReport_step (h : s.Follows d p) (t : ApiType) :
    (p.step t).finalReport = p.finalReport + ((p.turn t).map Turn.report).sum := by
  rw [step_eq]
  unfold Progress.turn
  cases p.session.binding? t with
  | none => exact (add_zero p.finalReport).symm
  | some binding =>
    rcases p.session.store.get_cases d t with ⟨notices, hget, -⟩ |
      ⟨notices, store, loaded, hget, -, -, hdocs⟩
    · rw [← h.actsOn.disk] at hget
      simp only [visit_of_get_none hget, hget]
      simp [Progress.finalReport, Turn.report, RunReport.add_def, ← MergeReport.zero_def]
    · rw [← h.actsOn.disk] at hget
      have hw := Workspace.actsOn_note (Workspace.actsOn_noteAll h.actsOn notices)
        (.processing t.fullName)
      obtain ⟨-, hmerged⟩ := mergeType_eq (s := p.session) hw t binding loaded.doc
      simp only [visit_of_get_some hget, hget, hmerged]
      simp [Progress.finalReport, Turn.report, RunReport.add_def, size_of_docs (hdocs _),
        h.actsOn.disk]

/-- What is loaded after a turn was loaded before, or in this turn. -/
theorem isLoaded_step (h : s.Follows d p) (t : ApiType) (name : String) :
    (p.step t).session.store.isLoaded name =
      (p.session.store.isLoaded name ||
        (p.turn t).any fun turn => turn.fullName = name && turn.merged.isSome) := by
  have hloaded : ∀ store : DocStore, store.isLoaded name = (store.docs[name]?).isSome := fun _ =>
    Std.ExtTreeMap.contains_eq_isSome_getElem?
  rw [hloaded, hloaded, docs_step h, h.turn_eq]
  cases s.binding? t with
  | none => simp
  | some binding =>
    by_cases hname : t.fullName = name
    · subst hname
      simp [serve, turnOf]
    · simp [hname, turnOf]

/-! ## All turns -/

theorem finalReport_steps (h : s.Follows d p) (types : List ApiType) :
    (types.foldl Progress.step p).finalReport =
      p.finalReport + ((traceFold Progress.step Progress.turn p types).map Turn.report).sum := by
  induction types generalizing p with
  | nil => exact (add_zero p.finalReport).symm
  | cons t rest ih =>
    rw [List.foldl_cons, ih (follows_step h t), finalReport_step h, traceFold_cons, List.map_append,
      List.sum_append, add_assoc]

theorem isLoaded_steps (h : s.Follows d p) (types : List ApiType) (name : String) :
    (types.foldl Progress.step p).session.store.isLoaded name =
      (p.session.store.isLoaded name || (traceFold Progress.step Progress.turn p types).any
        fun turn => turn.fullName = name && turn.merged.isSome) := by
  induction types generalizing p with
  | nil => simp [traceFold]
  | cons t rest ih =>
    rw [List.foldl_cons, ih (follows_step h t), isLoaded_step h, traceFold_cons, List.any_append,
      Bool.or_assoc]

/-- What was loaded once is not skipped any more. -/
theorem merged_of_isLoaded (h : s.Follows d p) {name : String}
    (hloaded : p.session.store.isLoaded name = true) (types : List ApiType) :
    ∀ turn ∈ traceFold Progress.step Progress.turn p types, turn.fullName = name →
      turn.merged.isSome = true := by
  induction types generalizing p with
  | nil => exact fun turn hturn => absurd hturn List.not_mem_nil
  | cons t rest ih =>
    rw [traceFold_cons]
    refine List.forall_mem_append.2 ⟨fun turn hturn hname => ?_, ?_⟩
    · rw [h.turn_eq] at hturn
      obtain ⟨binding, -, rfl⟩ := List.mem_map.1 hturn
      obtain rfl : t.fullName = name := hname
      have hheld : (p.session.store.docs[t.fullName]?).isSome := by
        rwa [← Std.ExtTreeMap.contains_eq_isSome_getElem?]
      obtain ⟨loaded, hloaded⟩ := Option.isSome_iff_exists.1 hheld
      simp [turnOf, hloaded]
    · exact ih (follows_step h t) (by rw [isLoaded_step h, hloaded, Bool.true_or])

theorem fullNames_steps (h : s.Follows d p) (types : List ApiType) :
    (traceFold Progress.step Progress.turn p types).map (·.fullName) =
      (types.filter fun t => (s.binding? t).isSome).map (·.fullName) := by
  induction types generalizing p with
  | nil => rfl
  | cons t rest ih =>
    rw [traceFold_cons, List.map_append, ih (follows_step h t), h.turn_eq]
    cases hbinding : s.binding? t <;> simp [hbinding, turnOf]

/-- The turns of one full name are told by the types of that name. -/
theorem filter_steps (h : s.Follows d p) (types : List ApiType) (name : String) :
    (traceFold Progress.step Progress.turn p types).filter (·.fullName = name) =
      s.turnsOf d p.session.store.docs[name]?
        ((types.filterMap fun t => (s.binding? t).map (t, ·)).filter (·.1.fullName = name)) := by
  induction types generalizing p with
  | nil => rfl
  | cons t rest ih =>
    rw [traceFold_cons, List.filter_append, ih (follows_step h t), docs_step h, h.turn_eq]
    cases hbinding : s.binding? t with
    | none => simp [hbinding]
    | some binding =>
      rw [List.filterMap_cons_some (by rw [hbinding]; rfl)]
      by_cases hname : t.fullName = name
      · subst hname
        simp [turnOf, turnsOf, traceFold_cons]
      · simp [turnOf, hname]

theorem follows_start (hw : w.ActsOn d) :
    s.Follows d { session := s, workspace := w } := ⟨hw, rfl, rfl⟩

theorem filter_turns (hw : w.ActsOn d) (name : String) :
    (s.turns w).filter (·.fullName = name) =
      s.turnsOf d s.store.docs[name]? (s.asked.filter (·.1.fullName = name)) :=
  filter_steps (follows_start hw) s.catalog.types.toList name

theorem finalReport_traverse (hw : w.ActsOn d) :
    (s.traverse w).finalReport =
      { documentsSaved := s.store.docs.size } + ((s.turns w).map Turn.report).sum :=
  finalReport_steps (follows_start hw) s.catalog.types.toList

theorem isLoaded_traverse (hw : w.ActsOn d) (name : String) :
    (s.traverse w).session.store.isLoaded name = (s.store.isLoaded name ||
      (s.turns w).any fun turn => turn.fullName = name && turn.merged.isSome) :=
  isLoaded_steps (follows_start hw) s.catalog.types.toList name

theorem fullNames_turns (hw : w.ActsOn d) :
    (s.turns w).map (·.fullName) =
      (s.catalog.types.toList.filter fun t => (s.binding? t).isSome).map (·.fullName) :=
  fullNames_steps (follows_start hw) s.catalog.types.toList

/-- What a run that begins with nothing counts is what its turns add up to. -/
theorem finalReport_eq_sum_turns (hempty : s.store.docs = ∅) (hw : w.ActsOn d) :
    (s.traverse w).finalReport = ((s.turns w).map Turn.report).sum := by
  have hnone : ({ documentsSaved := s.store.docs.size } : RunReport) = 0 := by
    rw [hempty]
    rfl
  rw [finalReport_traverse hw, hnone, zero_add]

/-- It reports that, unless the system refuses to write to some file. -/
theorem result_run_of_maySave (hempty : s.store.docs = ∅) (hw : w.ActsOn d) (h : s.MaySave w) :
    (s.run w).2.2 = .ok ((s.turns w).map Turn.report).sum := by
  have hok := (isOk_run_iff s w).1 ((isOk_run_iff_maySave hempty hw).2 h)
  rw [result_run_eq_ok hok, finalReport_eq_sum_turns hempty hw]

/-! ## Another catalog -/

/-- The session with another catalog in place of its own. -/
def withCatalog (s : Session) (catalog : Catalog) : Session :=
  { s with catalog }

variable {c c' : Catalog}

theorem merged_withCatalog (h : ∀ name, c'.lookup? name = c.lookup? name) (d : Disk) :
    (s.withCatalog c').merged d = (s.withCatalog c).merged d := by
  funext job doc
  simp only [merged, withCatalog, mergeType_congr h]

theorem serve_withCatalog (h : ∀ name, c'.lookup? name = c.lookup? name) (d : Disk) :
    (s.withCatalog c').serve d = (s.withCatalog c).serve d := by
  funext held job
  rw [serve, serve, merged_withCatalog h]
  rfl

theorem turnOf_withCatalog (h : ∀ name, c'.lookup? name = c.lookup? name) (d : Disk) :
    (s.withCatalog c').turnOf d = (s.withCatalog c).turnOf d := by
  funext held job
  rw [turnOf, turnOf, merged_withCatalog h]
  rfl

theorem turnsOf_withCatalog (h : ∀ name, c'.lookup? name = c.lookup? name) (d : Disk) :
    (s.withCatalog c').turnsOf d = (s.withCatalog c).turnsOf d := by
  funext held jobs
  rw [turnsOf, turnsOf, serve_withCatalog h, turnOf_withCatalog h]

/-- Runs that come to hold the same leave the same files. -/
theorem Saved.lookup?_congr {s' : Session} {w' : Workspace} {after after' : Disk}
    (h : s.Saved w after) (h' : s'.Saved w' after') (hdisk : w'.disk = w.disk)
    (hdocs : ∀ name : String, (s'.traverse w').session.store.docs[name]? =
      (s.traverse w).session.store.docs[name]?) (place : Location) :
    after'.lookup? place = after.lookup? place := by
  have hsame : (s'.traverse w').session.store.docs = (s.traverse w).session.store.docs :=
    Std.ExtTreeMap.ext_getElem? fun {name} => hdocs name
  rw [h.lookup?, h'.lookup?, savedDocs, savedDocs, loadedDocs, loadedDocs, hdisk, hsame]

end Session

end ApiDocs
