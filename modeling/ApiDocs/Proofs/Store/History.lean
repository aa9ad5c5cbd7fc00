import ApiDocs.Proofs.Session.SideBySide

/-!
# Histories of a store

A store is asked for documentation, what it hands out is edited in place, everything is saved from
time to time, and meanwhile others change the disk as they like. The documentation of a full name is
what was read when it was first handed out, with the edits of that name made to it in order: neither
the other names, nor saving, nor the disk have a part in it.
-/

namespace ApiDocs

/-- The documentation after edits, made in order. -/
def TypeDoc.edited (doc : TypeDoc) (edits : List (TypeDoc → TypeDoc)) : TypeDoc :=
  edits.foldl (fun doc edit => edit doc) doc

/-- The documentation as each of the edits finds it. -/
def TypeDoc.stages (doc : TypeDoc) : List (TypeDoc → TypeDoc) → List TypeDoc
  | [] => []
  | edit :: rest => doc :: stages (edit doc) rest

namespace DocStore

/-- What is done with a store, and to the disk beside it. -/
inductive Action where
  /-- Asks for the documentation of a type, and edits it if there is some. -/
  | use (t : ApiType) (edit : TypeDoc → TypeDoc)
  | saveAll
  /-- Others change the disk. -/
  | outside (change : Disk → Disk)

def Action.asksFor (name : String) : Action → Bool
  | .use t _ => t.fullName = name
  | .saveAll | .outside _ => false

def Action.edit? (name : String) : Action → Option (TypeDoc → TypeDoc)
  | .use t edit => if t.fullName = name then some edit else none
  | .saveAll | .outside _ => none

/-- The edits to the documentation of a full name, in order. -/
def edits (name : String) (actions : List Action) : List (TypeDoc → TypeDoc) :=
  actions.filterMap (·.edit? name)

structure State where
  store : DocStore
  workspace : Workspace

namespace State

/-- What the store hands out for a type. -/
def given (s : State) (t : ApiType) : Option TypeDoc :=
  (s.store.get s.workspace.disk t).2.2

def step (s : State) : Action → State
  | .use t edit =>
    let (notices, store, found) := s.store.get s.workspace.disk t
    let store := match found with
      | none => store
      | some doc => store.update t.fullName (edit doc)
    { store, workspace := s.workspace.noteAll notices }
  | .saveAll => { s with workspace := (s.store.saveAll s.workspace).1 }
  | .outside change => { s with workspace.disk := change s.workspace.disk }

def run (s : State) (actions : List Action) : State :=
  actions.foldl step s

def handed (name : String) (s : State) : Action → List (Option TypeDoc)
  | .use t _ => if t.fullName = name then [s.given t] else []
  | .saveAll | .outside _ => []

/-- What the store hands out for a full name while the actions go on, in order. -/
def results (name : String) (s : State) (actions : List Action) : List (Option TypeDoc) :=
  traceFold step (handed name) s actions

variable {s : State} {name : String} {loaded : LoadedDoc}

theorem run_cons (s : State) (action : Action) (rest : List Action) :
    s.run (action :: rest) = (s.step action).run rest := rfl

theorem results_cons (name : String) (s : State) (action : Action) (rest : List Action) :
    s.results name (action :: rest) = s.handed name action ++ (s.step action).results name rest :=
  rfl

theorem edits_cons (name : String) (action : Action) (rest : List Action) :
    edits name (action :: rest) = (action.edit? name).toList ++ edits name rest := by
  cases h : action.edit? name <;> simp [edits, h]

theorem edits_filter_asksFor (name : String) (actions : List Action) :
    edits name (actions.filter (·.asksFor name)) = edits name actions := by
  rw [edits, edits, List.filterMap_filter]
  congr 1
  funext action
  cases action <;> simp [Action.asksFor, Action.edit?]

/-! ## What is held -/

theorem docs_step (hloaded : s.store.docs[name]? = some loaded) (action : Action) :
    (s.step action).store.docs[name]? =
      some { loaded with doc := loaded.doc.edited (action.edit? name).toList } := by
  cases action with
  | saveAll | outside => exact hloaded
  | use t edit =>
    rcases s.store.get_cases s.workspace.disk t with ⟨notices, hget, hnothing⟩ |
      ⟨notices, store, found, hget, hgives, -, hdocs⟩
    · -- the type has another full name, for this one is held
      have hname : t.fullName ≠ name := by
        rintro rfl
        exact hnothing loaded (.before hloaded)
      simp only [step, hget, hloaded, Action.edit?, if_neg hname]
      rfl
    · simp only [step, hget, hdocs, Action.edit?]
      by_cases hname : t.fullName = name
      · subst hname
        obtain rfl := hgives.eq (.before hloaded)
        simp [TypeDoc.edited]
      · simp [hname, hloaded, TypeDoc.edited]

theorem docs_run (hloaded : s.store.docs[name]? = some loaded) (actions : List Action) :
    (s.run actions).store.docs[name]? =
      some { loaded with doc := loaded.doc.edited (edits name actions) } := by
  induction actions generalizing s loaded with
  | nil => exact hloaded
  | cons action rest ih =>
    rw [run_cons, ih (docs_step hloaded action), edits_cons]
    simp [TypeDoc.edited]

theorem given_of_loaded {t : ApiType} (hloaded : s.store.docs[t.fullName]? = some loaded) :
    s.given t = some loaded.doc := by
  rw [given, get_of_loaded hloaded]

theorem results_eq (hloaded : s.store.docs[name]? = some loaded) (actions : List Action) :
    s.results name actions = (loaded.doc.stages (edits name actions)).map some := by
  induction actions generalizing s loaded with
  | nil => rfl
  | cons action rest ih =>
    rw [results_cons, ih (docs_step hloaded action), edits_cons]
    cases action with
    | saveAll | outside => rfl
    | use t edit =>
      by_cases hname : t.fullName = name
      · subst hname
        simp [handed, Action.edit?, given_of_loaded hloaded, TypeDoc.stages, TypeDoc.edited]
      · simp [handed, Action.edit?, hname, TypeDoc.edited]

/-! ## What is not held -/

theorem docs_step_of_given_none {t : ApiType} (h : s.given t = none) (edit : TypeDoc → TypeDoc) :
    (s.step (.use t edit)).store = s.store ∧ s.store.docs[t.fullName]? = none := by
  rcases s.store.get_cases s.workspace.disk t with ⟨notices, hget, hnothing⟩ |
    ⟨notices, store, found, hget, -⟩
  · refine ⟨by simp only [step, hget], Option.eq_none_iff_forall_ne_some.2 fun loaded hloaded => ?_⟩
    exact hnothing loaded (.before hloaded)
  · rw [given, hget] at h
    cases h

theorem docs_run_of_results {actions : List Action} (hnone : s.store.docs[name]? = none)
    (hresults : ∀ found ∈ s.results name actions, found = none) :
    (s.run actions).store.docs[name]? = none := by
  induction actions generalizing s with
  | nil => exact hnone
  | cons action rest ih =>
    obtain ⟨hnow, hrest⟩ := List.forall_mem_append.1 (results_cons name s action rest ▸ hresults)
    refine ih ?_ hrest
    cases action with
    | saveAll | outside => exact hnone
    | use t edit =>
      by_cases hname : t.fullName = name
      · rw [(docs_step_of_given_none (hnow _ (by simp [handed, hname])) edit).1, hnone]
      · rcases s.store.get_cases s.workspace.disk t with ⟨notices, hget, -⟩ |
          ⟨notices, store, found, hget, -, -, hdocs⟩
        · simp only [step, hget, hnone]
        · simp only [step, hget, hdocs, if_neg hname, hnone]

/-! ## Loading once -/

/-- The documentation `doc`, which is handed out for a type in the state `s`, stays with the store,
whatever happens later. -/
structure LoadsOnce (s : State) (t : ApiType) (doc : TypeDoc) : Prop where
  /-- It is read from the file of the type. -/
  read : DocStore.read s.workspace.disk (s.store.path t) = .ok doc
  /-- It is held under the full name for that file, with all edits of the name made to it. -/
  held : ∀ edit later, (s.run (.use t edit :: later)).store.docs[t.fullName]? =
    some ⟨s.store.path t, doc.edited (edit :: edits t.fullName later)⟩
  /-- That is what any type of the full name is given. -/
  given : ∀ edit later other, other.fullName = t.fullName →
    (s.run (.use t edit :: later)).given other = some (doc.edited (edit :: edits t.fullName later))
  /-- When saving has come past it, that is what its file holds. -/
  saved : ∀ edit later, ∀ (w after : Workspace) (docs : List (String × LoadedDoc))
    (found : LoadedDoc), w.journal = none →
    docs ++ [(t.fullName, found)] <+: (s.run (.use t edit :: later)).store.docs.toList →
    saveEach w (docs ++ [(t.fullName, found)]) = (after, .ok ()) →
    after.disk.find (s.store.path t) =
      .ok (.file (doc.edited (edit :: edits t.fullName later)).render.toUTF8)
  /-- Histories that ask for the full name alike get the same results for it. -/
  alike : ∀ edit later later',
    later'.filter (·.asksFor t.fullName) = later.filter (·.asksFor t.fullName) →
    s.results t.fullName (.use t edit :: later') = s.results t.fullName (.use t edit :: later)

/-- Nothing is handed out for a type in the state `s`, and nothing comes of asking for it. -/
structure Refuses (s : State) (t : ApiType) : Prop where
  store : ∀ edit, (s.step (.use t edit)).store = s.store
  disk : ∀ edit, s.workspace.journal = none →
    (s.step (.use t edit)).workspace.disk = s.workspace.disk
  /-- It can be loaded as soon as its file can be read. -/
  later : ∀ edit d doc, DocStore.read d (s.store.path t) = .ok doc →
    ((s.step (.use t edit)).store.get d t).2.2 = some doc

theorem loadsOnce_of_given {t : ApiType} {doc : TypeDoc}
    (hnone : s.store.docs[t.fullName]? = none) (hgiven : s.given t = some doc) :
    s.LoadsOnce t doc := by
  have hread : DocStore.read s.workspace.disk (s.store.path t) = .ok doc := by
    rcases s.store.get_cases s.workspace.disk t with ⟨notices, hget, -⟩ |
      ⟨notices, store, found, hget, hgives, -⟩
    · rw [State.given, hget] at hgiven
      cases hgiven
    · rw [State.given, hget] at hgiven
      cases hgiven
      cases hgives with
      | before hloaded => simp [hnone] at hloaded
      | fromFile _ _ hread => exact hread
  have hfirst : ∀ edit, (s.step (.use t edit)).store.docs[t.fullName]? =
      some ⟨s.store.path t, edit doc⟩ := by
    intro edit
    simp only [step, get_of_read hnone hread]
    rw [update_of_loaded Std.ExtTreeMap.getElem?_insert_self, if_pos rfl]
  have hheld : ∀ edit later, (s.run (.use t edit :: later)).store.docs[t.fullName]? =
      some ⟨s.store.path t, doc.edited (edit :: edits t.fullName later)⟩ := fun edit later =>
    docs_run (hfirst edit) later
  refine ⟨hread, hheld, fun edit later other hother => ?_,
    fun edit later w after docs found hjournal hfront hsave => ?_,
    fun edit later later' hsame => ?_⟩
  · rw [← hother] at hheld ⊢
    exact given_of_loaded (hheld edit later)
  · exact find_of_saved (hheld edit later) hjournal hfront hsave
  · rw [results_cons, results_cons, results_eq (hfirst edit), results_eq (hfirst edit),
      ← edits_filter_asksFor, hsame, edits_filter_asksFor]

theorem refuses_of_given {t : ApiType} (h : s.given t = none) : s.Refuses t := by
  have hstore : ∀ edit, (s.step (.use t edit)).store = s.store := fun edit =>
    (docs_step_of_given_none h edit).1
  refine ⟨hstore, fun edit hjournal => ?_, fun edit d doc hread => ?_⟩
  · exact Workspace.disk_noteAll_of_journal_eq_none hjournal _
  · rw [hstore, get_of_read (docs_step_of_given_none h edit).2 hread]

/-- In each history of a store that begins with nothing: the documentation that is handed out for a
full name the first time is loaded for good, and asking in vain changes nothing. -/
theorem load_once (root : String) (w : Workspace) (before : List Action) (t : ApiType) :
    let start : State := ⟨{ root }, w⟩
    (∀ doc, (∀ found ∈ start.results t.fullName before, found = none) →
      (start.run before).given t = some doc → (start.run before).LoadsOnce t doc) ∧
    ((start.run before).given t = none → (start.run before).Refuses t) := by
  intro start
  refine ⟨fun doc hresults hgiven => ?_, refuses_of_given⟩
  have hempty : start.store.docs[t.fullName]? = none := by simp [start]
  exact loadsOnce_of_given (docs_run_of_results hempty hresults) hgiven

/-- The file of the type appears after it has been asked for in vain. -/
theorem load_once_appearing :
    let t : ApiType := { nameSpace := "N", name := "T" }
    let start : State := ⟨{ root := "en" }, { disk := {} }⟩
    let before := [.use t id, .outside (·.placeFile "en/N/T.xml" "<a/>".toUTF8), .saveAll]
    let doc : TypeDoc := ⟨[], "a", [], []⟩
    start.given t = none ∧ start.Refuses t ∧
      (∀ found ∈ start.results t.fullName before, found = none) ∧
      (start.run before).given t = some doc ∧ (start.run before).LoadsOnce t doc := by
  intro t start before doc
  have hvain : start.given t = none := by decide +kernel
  have hresults : ∀ found ∈ start.results t.fullName before, found = none := by decide +kernel
  have hgiven : (start.run before).given t = some doc := by decide +kernel
  have hrefuses := (load_once "en" { disk := {} } [] t).2 hvain
  have hloads := (load_once "en" { disk := {} } before t).1 doc hresults hgiven
  exact ⟨hvain, hrefuses, hresults, hgiven, hloads⟩

end State

end DocStore

end ApiDocs
