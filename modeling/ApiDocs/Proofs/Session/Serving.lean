import ApiDocs.Proofs.Session.SideBySide

/-!
# One full name at a time

Types of different full names do not meet in a run. What a run holds under a full name in the end is
told by the types of that name alone, which take their turns in declared order: the first of them
whose documentation can be read loads it, and it and all that follow merge into it.
-/

namespace ApiDocs

open Xml

/-- The documentation in the file of a type, if it can be read. -/
def DocStore.load? (s : DocStore) (d : Disk) (t : ApiType) : Option LoadedDoc :=
  (read d (s.path t)).toOption.map (⟨s.path t, ·⟩)

namespace Session

/-- The binding of a type, if a run of the session looks at it. -/
def binding? (s : Session) (t : ApiType) : Option EventBinding :=
  if s.onlyType.any (· ≠ t.fullName) then none else t.binding

/-- The types that a run looks at with their bindings, in declared order. -/
def asked (s : Session) : List (ApiType × EventBinding) :=
  s.catalog.types.toList.filterMap fun t => (s.binding? t).map (t, ·)

/-- The merge of one type, with the fragments that are on a disk. -/
def merged (s : Session) (d : Disk) (job : ApiType × EventBinding) (doc : TypeDoc) : Merged :=
  ApiDocs.mergeType s.options (s.library.map (·.source d)) s.catalog job.1 job.2 doc

/-- What is held under the full name of a type after its turn, when `held` was before. -/
def serve (s : Session) (d : Disk) (held : Option LoadedDoc) (job : ApiType × EventBinding) :
    Option LoadedDoc :=
  (held.or (s.store.load? d job.1)).map fun loaded =>
    { loaded with doc := (s.merged d job loaded.doc).doc }

/-- The types of a full name that are given its documentation in a run that begins with nothing:
those from the first one on whose file can be read. -/
def served (s : Session) (d : Disk) (name : String) : List (ApiType × EventBinding) :=
  (s.asked.filter (·.1.fullName = name)).dropWhile fun job => (s.store.load? d job.1).isNone

variable {s : Session} {d : Disk}

/-! ## The types that are looked at -/

theorem step_eq (p : Progress) (t : ApiType) :
    p.step t = match p.session.binding? t with
      | none => p
      | some binding => p.visit t binding := by
  unfold Progress.step binding?
  split <;> rfl

theorem load?_eq_some_iff {s : DocStore} {t : ApiType} {loaded : LoadedDoc} :
    s.load? d t = some loaded ↔
      loaded.path = s.path t ∧ DocStore.read d (s.path t) = .ok loaded.doc := by
  obtain ⟨path, doc⟩ := loaded
  rw [DocStore.load?]
  cases DocStore.read d (s.path t) with
  | error cause => simp [Except.toOption]
  | ok found => simp [Except.toOption, eq_comm]

theorem gives_iff {s : DocStore} {t : ApiType} {loaded : LoadedDoc} :
    s.Gives d t loaded ↔ (s.docs[t.fullName]?).or (s.load? d t) = some loaded := by
  constructor
  · rintro (hloaded | ⟨hnone, hpath, hread⟩)
    · rw [hloaded, Option.some_or]
    · rw [hnone, Option.none_or, load?_eq_some_iff]
      exact ⟨hpath, hread⟩
  · intro h
    rcases Option.or_eq_some_iff.1 h with hloaded | ⟨hnone, hload⟩
    · exact .before hloaded
    · obtain ⟨hpath, hread⟩ := load?_eq_some_iff.1 hload
      exact .fromFile hnone hpath hread

/-! ## The run of one type -/

/-- Without a journal, the parts of a merge take their fragments from one disk. -/
theorem mergeType_eq {w : Workspace} (hw : w.ActsOn d) (t : ApiType) (binding : EventBinding)
    (doc : TypeDoc) :
    (s.mergeType w t binding doc).1.ActsOn d ∧
      (s.mergeType w t binding doc).2 =
        ((s.merged d (t, binding) doc).doc, (s.merged d (t, binding) doc).report) := by
  refine List.foldl_rel (r := fun (state : Workspace × TypeDoc × MergeReport) (m : Merged) =>
    state.1.ActsOn d ∧ state.2 = (m.doc, m.report)) ⟨hw, rfl⟩ ?_
  rintro task - ⟨w, current, report⟩ m ⟨hacts, heq⟩
  obtain ⟨rfl, rfl⟩ : current = m.doc ∧ report = m.report := by simpa using heq
  refine ⟨Workspace.actsOn_noteAll hacts _, ?_⟩
  have hdisk : w.disk = d := hacts.disk
  simp only [mergeTask, hdisk, Merged.andThen]

/-- A run of the session on the disk has come to some type. -/
structure Follows (s : Session) (d : Disk) (p : Progress) : Prop where
  actsOn : p.workspace.ActsOn d
  session : p.session = { s with store := p.session.store }
  root : p.session.store.root = s.store.root

theorem Follows.load?_eq {p : Progress} (h : s.Follows d p) (t : ApiType) :
    p.session.store.load? d t = s.store.load? d t := by
  simp only [DocStore.load?, DocStore.path, h.root]

/-- A type changes what is held under its own name, and nothing else. -/
theorem follows_visit {p : Progress} (h : s.Follows d p) (t : ApiType) (binding : EventBinding) :
    s.Follows d (p.visit t binding) ∧ ∀ name : String,
      (p.visit t binding).session.store.docs[name]? =
        if t.fullName = name then s.serve d p.session.store.docs[name]? (t, binding)
        else p.session.store.docs[name]? := by
  rcases p.session.store.get_cases d t with ⟨notices, hget, hnothing⟩ |
    ⟨notices, store, loaded, hget, hgives, hroot, hdocs⟩
  · rw [← h.actsOn.disk] at hget
    rw [visit_of_get_none hget]
    refine ⟨⟨Workspace.actsOn_noteAll h.actsOn notices, h.session, h.root⟩, fun name => ?_⟩
    by_cases hname : t.fullName = name
    · subst hname
      have hnone : (p.session.store.docs[t.fullName]?).or (p.session.store.load? d t) = none :=
        Option.eq_none_iff_forall_ne_some.2 fun loaded hloaded =>
          hnothing loaded (gives_iff.2 hloaded)
      rw [if_pos rfl, serve, ← h.load?_eq, hnone, (Option.or_eq_none_iff.1 hnone).1]
      rfl
    · rw [if_neg hname]
  · rw [← h.actsOn.disk] at hget
    rw [visit_of_get_some hget]
    have hw := Workspace.actsOn_note (Workspace.actsOn_noteAll h.actsOn notices)
      (.processing t.fullName)
    obtain ⟨hacts, hmerged⟩ := mergeType_eq (s := p.session) hw t binding loaded.doc
    have hsame : p.session.merged d (t, binding) = s.merged d (t, binding) := by
      rw [h.session]
      rfl
    simp only [hmerged, hsame]
    refine ⟨⟨hacts, ?_, (hroot _).trans h.root⟩, fun name => ?_⟩
    · rw [h.session]
    · rw [hdocs]
      by_cases hname : t.fullName = name
      · subst hname
        rw [if_pos rfl, if_pos rfl, serve, ← h.load?_eq, gives_iff.1 hgives]
        rfl
      · rw [if_neg hname, if_neg hname]

/-! ## The whole run -/

theorem follows_foldl {p : Progress} (h : s.Follows d p) (types : List ApiType) :
    s.Follows d (types.foldl Progress.step p) ∧ ∀ name : String,
      (types.foldl Progress.step p).session.store.docs[name]? =
        ((types.filterMap fun t => (s.binding? t).map (t, ·)).filter
          (·.1.fullName = name)).foldl (s.serve d) p.session.store.docs[name]? := by
  induction types generalizing p with
  | nil => exact ⟨h, fun name => rfl⟩
  | cons t types ih =>
    have hbinding : p.session.binding? t = s.binding? t := by
      rw [h.session]
      rfl
    rw [List.foldl_cons, step_eq, hbinding]
    cases hasked : s.binding? t with
    | none =>
      rw [List.filterMap_cons_none (by rw [hasked]; rfl)]
      exact ih h
    | some binding =>
      obtain ⟨hvisit, hdocs⟩ := follows_visit h t binding
      obtain ⟨hlast, hrest⟩ := ih hvisit
      refine ⟨hlast, fun name => ?_⟩
      rw [List.filterMap_cons_some (by rw [hasked]; rfl), hrest, hdocs]
      by_cases hname : t.fullName = name
      · rw [if_pos hname, List.filter_cons_of_pos (by simpa using hname), List.foldl_cons]
      · rw [if_neg hname, List.filter_cons_of_neg (by simpa using hname)]

/-- What a run holds under a full name in the end comes from the turns of the types of that name. -/
theorem follows_traverse {w : Workspace} (hw : w.ActsOn d) :
    s.Follows d (s.traverse w) ∧ ∀ name : String,
      (s.traverse w).session.store.docs[name]? =
        (s.asked.filter (·.1.fullName = name)).foldl (s.serve d) s.store.docs[name]? :=
  follows_foldl (p := { session := s, workspace := w }) ⟨hw, rfl, rfl⟩ s.catalog.types.toList

/-! ## Turns of one name -/

theorem foldl_serve_some (jobs : List (ApiType × EventBinding)) (loaded : LoadedDoc) :
    jobs.foldl (s.serve d) (some loaded) =
      some { loaded with
        doc := jobs.foldl (fun doc job => (s.merged d job doc).doc) loaded.doc } := by
  induction jobs generalizing loaded with
  | nil => rfl
  | cons job jobs ih => exact ih { loaded with doc := (s.merged d job loaded.doc).doc }

/-- With nothing held, the first type whose file can be read loads it. -/
theorem foldl_serve_none (jobs : List (ApiType × EventBinding)) :
    jobs.foldl (s.serve d) none =
      let served := jobs.dropWhile fun job => (s.store.load? d job.1).isNone
      (served.head?.bind fun job => s.store.load? d job.1).map fun loaded =>
        { loaded with
          doc := served.foldl (fun doc job => (s.merged d job doc).doc) loaded.doc } := by
  induction jobs with
  | nil => rfl
  | cons job jobs ih =>
    cases hload : s.store.load? d job.1 with
    | none =>
      have hserve : s.serve d none job = none := by rw [serve, hload]; rfl
      rw [List.foldl_cons, hserve, ih, List.dropWhile_cons_of_pos (by rw [hload]; rfl)]
    | some loaded =>
      have hserve : s.serve d none job =
          some { loaded with doc := (s.merged d job loaded.doc).doc } := by
        rw [serve, hload]
        rfl
      rw [List.foldl_cons, hserve, foldl_serve_some,
        List.dropWhile_cons_of_neg (by simp [hload])]
      simp [hload]

end Session

end ApiDocs
