import ApiDocs.Proofs.Session.Saving
import ApiDocs.Proofs.Session.Variants

/-!
# Runs side by side

Two runs of one session on two disks go from type to type alike, if every document on the second disk
is a variant of the one on the first, and the fragments that the first run reads are on the second
disk as well. What a run reads is told by a trace along its steps.
-/

namespace ApiDocs

open Xml

/-! ## Traces along a fold -/

/-- What `out` gives before each step of a fold, in order. -/
def traceFold {σ α β : Type} (step : σ → α → σ) (out : σ → α → List β) (state : σ) :
    List α → List β
  | [] => []
  | item :: rest => out state item ++ traceFold step out (step state item) rest

/-- A fold keeps an invariant, if each step keeps it given what the trace tells about that step. -/
theorem foldl_of_traceFold {σ α β : Type} {I : σ → Prop} {P : β → Prop} {step : σ → α → σ}
    {out : σ → α → List β}
    (hstep : ∀ {state : σ} {item : α}, I state → (∀ x ∈ out state item, P x) → I (step state item))
    {items : List α} {state : σ} (h : I state)
    (htrace : ∀ x ∈ traceFold step out state items, P x) : I (items.foldl step state) := by
  induction items generalizing state with
  | nil => exact h
  | cons item rest ih =>
    obtain ⟨hitem, hrest⟩ := List.forall_mem_append.1 htrace
    exact ih (hstep h hitem) hrest

/-- Two folds keep a relation, if each step keeps it given what the trace of the first tells about
that step. -/
theorem foldl_rel_of_traceFold {σ τ α β : Type} {R : σ → τ → Prop} {P : β → Prop}
    {step : σ → α → σ} {step' : τ → α → τ} {out : σ → α → List β}
    (hstep : ∀ {state : σ} {state' : τ} {item : α}, R state state' →
      (∀ x ∈ out state item, P x) → R (step state item) (step' state' item))
    {items : List α} {state : σ} {state' : τ} (h : R state state')
    (htrace : ∀ x ∈ traceFold step out state items, P x) :
    R (items.foldl step state) (items.foldl step' state') := by
  induction items generalizing state state' with
  | nil => exact h
  | cons item rest ih =>
    obtain ⟨hitem, hrest⟩ := List.forall_mem_append.1 htrace
    exact ih (hstep h hitem) hrest

/-! ## What a run reads and writes -/

namespace Session

/-- The fragment file that a part of the work reads: the one that it asks for, if it is there. -/
def taskReads (s : Session) (t : ApiType) (state : Workspace × TypeDoc × MergeReport)
    (task : MergeTask) : List String :=
  ((task.symbol? s.options state.2.1).bind (s.fragmentPath? t)).toList.filter state.1.disk.isFile

def mergeReads (s : Session) (w : Workspace) (t : ApiType) (binding : EventBinding)
    (doc : TypeDoc) : List String :=
  traceFold (s.mergeTask t) (s.taskReads t) (w, doc, {}) (mergeTasks t binding)

/-- The fragment files that a run reads when it comes to a type. -/
def Progress.reads (p : Progress) (t : ApiType) : List String :=
  if p.session.onlyType.any (· ≠ t.fullName) then []
  else
    match t.binding with
    | none => []
    | some binding =>
      match p.session.store.get p.workspace.disk t with
      | (_, _, none) => []
      | (notices, _, some doc) =>
        p.session.mergeReads ((p.workspace.noteAll notices).note (.processing t.fullName)) t
          binding doc

/-- The run of a session once it has come past all types. -/
def traverse (s : Session) (w : Workspace) : Progress :=
  s.catalog.types.toList.foldl Progress.step { session := s, workspace := w }

/-- The fragment files that a run reads. -/
def fragmentFiles (s : Session) (w : Workspace) : List String :=
  traceFold Progress.step Progress.reads { session := s, workspace := w } s.catalog.types.toList

/-- The documentation files that a run has loaded, and writes in the end. -/
def documentFiles (s : Session) (w : Workspace) : List String :=
  (s.traverse w).session.store.docs.toList.map (·.2.path)

end Session

/-! ## Workspaces without a journal -/

structure Workspace.ActsOn (w : Workspace) (d : Disk) : Prop where
  journal : w.journal = none
  disk : w.disk = d

namespace Workspace

variable {w : Workspace} {d : Disk}

theorem actsOn_note (h : w.ActsOn d) (n : Notice) : (w.note n).ActsOn d :=
  ⟨h.journal, (disk_note_of_journal_eq_none h.journal n).trans h.disk⟩

theorem actsOn_noteAll (h : w.ActsOn d) (notices : List Notice) : (w.noteAll notices).ActsOn d :=
  ⟨(journal_noteAll w notices).trans h.journal,
    (disk_noteAll_of_journal_eq_none h.journal notices).trans h.disk⟩

end Workspace

/-! ## Merging side by side -/

/-- The fragment in a file has clean names, and is on both disks. -/
structure SharesFragment (d d' : Disk) (path : String) : Prop where
  find_eq : d'.find path = d.find path
  clean : ∀ e, FragmentLibrary.read d path = .ok e → e.toNode.all Node.hasCleanNames = true

namespace Session

/-- The merges of two variants have come to the same point. -/
structure MergesAlike (d d' : Disk) (doc doc' : TypeDoc)
    (state state' : Workspace × TypeDoc × MergeReport) : Prop where
  actsOn : state.1.ActsOn d
  actsOn' : state'.1.ActsOn d'
  report : state'.2.2 = state.2.2
  docs : ∃ table : ProseTable, table.IsSettled ∧ state.2.1 = doc.overwrite table ∧
    state'.2.1 = doc'.overwrite table

variable {s : Session} {d d' : Disk} {t : ApiType} {doc doc' : TypeDoc}

theorem mergesAlike_mergeTask (hshape : Disk.SameShape d d') (hdocs : TypeDoc.Variants doc doc')
    {state state' : Workspace × TypeDoc × MergeReport} {task : MergeTask}
    (h : MergesAlike d d' doc doc' state state')
    (hreads : ∀ path ∈ s.taskReads t state task, SharesFragment d d' path) :
    MergesAlike d d' doc doc' (s.mergeTask t state task) (s.mergeTask t state' task) := by
  obtain ⟨w, current, report⟩ := state
  obtain ⟨w', current', report'⟩ := state'
  obtain ⟨hw, hw', hreport, table, htable, hcurrent, hcurrent'⟩ := h
  simp only at hw hw' hreport hcurrent hcurrent'
  have hvariants : TypeDoc.Variants current current' := by
    rw [hcurrent, hcurrent']
    exact hdocs.overwrite table table
  have hshared : ∀ symbol ∈ task.symbol? s.options current, ∀ path ∈ s.fragmentPath? t symbol,
      d.isFile path = true → SharesFragment d d' path := by
    intro symbol hsymbol path hpath hfile
    refine hreads path (List.mem_filter.2 ⟨Option.mem_toList.2 ?_, ?_⟩)
    · exact Option.mem_bind_iff.2 ⟨symbol, hsymbol, hpath⟩
    · simpa [hw.disk] using hfile
  -- the fragment that is asked for is the same, and so is everything that is told
  have hperform : task.perform s.options (s.library.map (·.source d')) s.catalog t current' =
      task.perform s.options (s.library.map (·.source d)) s.catalog t current' := by
    refine perform_eq hshape fun symbol hsymbol path hpath hfile => ?_
    rw [MergeTask.symbol?_eq_of_variants hvariants] at hsymbol
    exact (hshared symbol hsymbol path hpath hfile).find_eq
  have hwrites : ∀ write ∈ task.writes s.options (s.library.map (·.source d)) s.catalog t current,
      write.2.IsSettled :=
    isSettled_writes fun symbol hsymbol path hpath hfile =>
      (hshared symbol hsymbol path hpath hfile).clean
  have hpart := overwrites_perform s.options (s.library.map (·.source d)) s.catalog t task
  simp only [mergeTask, hw.disk, hw'.disk, hperform]
  refine ⟨Workspace.actsOn_noteAll hw _, Workspace.actsOn_noteAll hw' _, ?_, ?_⟩
  · simp only [hpart.report_eq hvariants, hreport]
  · refine ⟨table.followedBy (.ofWrites (task.writes s.options (s.library.map (·.source d))
      s.catalog t current)),
      ProseTable.isSettled_followedBy htable (ProseTable.isSettled_ofWrites hwrites), ?_, ?_⟩
    · simp only [hpart.doc_eq, hcurrent, TypeDoc.overwrite_overwrite]
    · simp only [hpart.doc_eq, hpart.writes_eq hvariants]
      rw [hcurrent', TypeDoc.overwrite_overwrite]

theorem mergesAlike_mergeType (hshape : Disk.SameShape d d') (hdocs : TypeDoc.Variants doc doc')
    {w w' : Workspace} (hw : w.ActsOn d) (hw' : w'.ActsOn d') {binding : EventBinding}
    (hreads : ∀ path ∈ s.mergeReads w t binding doc, SharesFragment d d' path) :
    MergesAlike d d' doc doc' (s.mergeType w t binding doc) (s.mergeType w' t binding doc') := by
  refine foldl_rel_of_traceFold (mergesAlike_mergeTask hshape hdocs) ?_ hreads
  exact ⟨hw, hw', rfl, .empty, ProseTable.isSettled_empty, doc.overwrite_empty.symm,
    doc'.overwrite_empty.symm⟩

end Session

/-! ## Loading side by side -/

/-- Documentation that is read on either disk is read on both, as variants of one document. -/
structure Rereads (d d' : Disk) : Prop where
  shape : Disk.SameShape d d'
  read : ∀ {path : String} {doc : TypeDoc}, DocStore.read d path = .ok doc →
    ∃ doc', DocStore.read d' path = .ok doc' ∧ TypeDoc.Variants doc doc'
  read' : ∀ {path : String} {doc' : TypeDoc}, DocStore.read d' path = .ok doc' →
    ∃ doc, DocStore.read d path = .ok doc

/-- The files were loaded from one path, and overwritten in the same way. -/
structure LoadedDoc.Alike (d d' : Disk) (loaded loaded' : LoadedDoc) : Prop where
  path : loaded'.path = loaded.path
  docs : ∃ (doc doc' : TypeDoc) (table : ProseTable), DocStore.read d loaded.path = .ok doc ∧
    DocStore.read d' loaded.path = .ok doc' ∧ TypeDoc.Variants doc doc' ∧ table.IsSettled ∧
    loaded.doc = doc.overwrite table ∧ loaded'.doc = doc'.overwrite table

namespace LoadedDoc

variable {d d' : Disk} {loaded loaded' : LoadedDoc}

theorem Alike.variants (h : loaded.Alike d d' loaded') :
    TypeDoc.Variants loaded.doc loaded'.doc := by
  obtain ⟨-, doc, doc', table, -, -, hvariants, -, hdoc, hdoc'⟩ := h
  rw [hdoc, hdoc']
  exact hvariants.overwrite table table

theorem Alike.overwrite (h : loaded.Alike d d' loaded') {table : ProseTable}
    (htable : table.IsSettled) :
    LoadedDoc.Alike d d' { loaded with doc := loaded.doc.overwrite table }
      { loaded' with doc := loaded'.doc.overwrite table } := by
  obtain ⟨hpath, doc, doc', before, hread, hread', hvariants, hbefore, hdoc, hdoc'⟩ := h
  refine ⟨hpath, doc, doc', before.followedBy table, hread, hread', hvariants,
    ProseTable.isSettled_followedBy hbefore htable, ?_, ?_⟩
  · rw [hdoc, TypeDoc.overwrite_overwrite]
  · rw [hdoc', TypeDoc.overwrite_overwrite]

theorem alike_of_read (hrereads : Rereads d d') {path : String} {doc doc' : TypeDoc}
    (hread : DocStore.read d path = .ok doc) (hread' : DocStore.read d' path = .ok doc') :
    LoadedDoc.Alike d d' ⟨path, doc⟩ ⟨path, doc'⟩ := by
  obtain ⟨found, hfound, hvariants⟩ := hrereads.read hread
  obtain rfl := Except.ok.inj (hread'.symm.trans hfound)
  exact ⟨rfl, doc, doc', .empty, hread, hread', hvariants, ProseTable.isSettled_empty,
    doc.overwrite_empty.symm, doc'.overwrite_empty.symm⟩

end LoadedDoc

namespace DocStore

variable {s : DocStore} {d : Disk} {t : ApiType}

theorem get_of_loaded {loaded : LoadedDoc} (h : s.docs[t.fullName]? = some loaded) :
    s.get d t = ([], s, some loaded.doc) := by
  simp only [get, h]

theorem get_of_read (h : s.docs[t.fullName]? = none) {doc : TypeDoc}
    (hread : DocStore.read d (s.path t) = .ok doc) :
    s.get d t = ([.documentLoaded t.fullName (s.path t)],
      { s with docs := s.docs.insert t.fullName ⟨s.path t, doc⟩ }, some doc) := by
  simp [get, h, isFile_of_read hread, hread]

theorem get_of_read_ne (h : s.docs[t.fullName]? = none)
    (hread : ∀ doc, DocStore.read d (s.path t) ≠ .ok doc) :
    ∃ notices, s.get d t = (notices, s, none) := by
  cases hfile : d.isFile (s.path t) with
  | false => exact ⟨_, by simp only [get, h, hfile]; rfl⟩
  | true =>
    cases hcause : DocStore.read d (s.path t) with
    | error cause => exact ⟨_, by simp only [get, h, hfile, hcause]; rfl⟩
    | ok doc => exact absurd hcause (hread doc)

theorem update_of_loaded {loaded : LoadedDoc} (h : s.docs[t.fullName]? = some loaded)
    (doc : TypeDoc) (name : String) :
    (s.update t.fullName doc).docs[name]? =
      if t.fullName = name then some { loaded with doc } else s.docs[name]? := by
  simp [update, h, Std.ExtTreeMap.getElem?_insert]

theorem root_update (fullName : String) (doc : TypeDoc) :
    (s.update fullName doc).root = s.root := by
  unfold update
  split <;> rfl

/-- What the store gives out for a type: what was loaded under its name before, or else what is read
from its file. -/
inductive Gives (s : DocStore) (d : Disk) (t : ApiType) (loaded : LoadedDoc) : Prop where
  | before (h : s.docs[t.fullName]? = some loaded)
  | fromFile (hnone : s.docs[t.fullName]? = none) (hpath : loaded.path = s.path t)
      (hread : DocStore.read d (s.path t) = .ok loaded.doc)

theorem Gives.eq {loaded other : LoadedDoc} (h : s.Gives d t loaded) (hother : s.Gives d t other) :
    loaded = other := by
  cases h with
  | before hloaded =>
    cases hother with
    | before hsame => exact Option.some.inj (hloaded.symm.trans hsame)
    | fromFile hnone => simp [hloaded] at hnone
  | fromFile hnone hpath hread =>
    cases hother with
    | before hloaded => simp [hloaded] at hnone
    | fromFile _ hpath' hread' =>
      calc loaded = ⟨s.path t, loaded.doc⟩ := by rw [← hpath]
        _ = ⟨s.path t, other.doc⟩ := by rw [Except.ok.inj (hread.symm.trans hread')]
        _ = other := by rw [← hpath']

/-- A type that nothing is given out for is passed over. -/
theorem get_cases (s : DocStore) (d : Disk) (t : ApiType) :
    (∃ notices, s.get d t = (notices, s, none) ∧ ∀ loaded, ¬ s.Gives d t loaded) ∨
    ∃ notices store loaded, s.get d t = (notices, store, some loaded.doc) ∧ s.Gives d t loaded ∧
      (∀ doc, (store.update t.fullName doc).root = s.root) ∧
      ∀ doc name, (store.update t.fullName doc).docs[name]? =
        if t.fullName = name then some { loaded with doc } else s.docs[name]? := by
  cases hloaded : s.docs[t.fullName]? with
  | some loaded =>
    exact .inr ⟨[], s, loaded, get_of_loaded hloaded, .before hloaded, root_update t.fullName,
      update_of_loaded hloaded⟩
  | none =>
    by_cases hread : ∃ doc, DocStore.read d (s.path t) = .ok doc
    · obtain ⟨doc, hread⟩ := hread
      refine .inr ⟨_, _, ⟨s.path t, doc⟩, get_of_read hloaded hread, .fromFile hloaded rfl hread,
        root_update t.fullName, fun edited name => ?_⟩
      rw [update_of_loaded Std.ExtTreeMap.getElem?_insert_self]
      by_cases hname : t.fullName = name <;> simp [hname, Std.ExtTreeMap.getElem?_insert]
    · obtain ⟨notices, hget⟩ := get_of_read_ne hloaded fun doc h => hread ⟨doc, h⟩
      refine .inl ⟨notices, hget, fun loaded hgives => ?_⟩
      cases hgives with
      | before h => simp [hloaded] at h
      | fromFile _ _ h => exact hread ⟨loaded.doc, h⟩

end DocStore

/-! ## Running side by side -/

namespace Session

/-- The stores hold files of the same names, which are alike. -/
def StoresAlike (d d' : Disk) (store store' : DocStore) : Prop :=
  store'.root = store.root ∧ ∀ name : String,
    (store.docs[name]? = none ∧ store'.docs[name]? = none) ∨
    ∃ loaded loaded', store.docs[name]? = some loaded ∧ store'.docs[name]? = some loaded' ∧
      loaded.Alike d d' loaded'

/-- Two runs of one session have come to the same point. -/
structure RunsAlike (d d' : Disk) (p p' : Progress) : Prop where
  actsOn : p.workspace.ActsOn d
  actsOn' : p'.workspace.ActsOn d'
  session : p'.session = { p.session with store := p'.session.store }
  stores : StoresAlike d d' p.session.store p'.session.store
  report : p'.report = p.report

variable {d d' : Disk} {p p' : Progress} {t : ApiType} {binding : EventBinding}

theorem StoresAlike.none_iff {store store' : DocStore} (h : StoresAlike d d' store store')
    (name : String) : store'.docs[name]? = none ↔ store.docs[name]? = none := by
  rcases h.2 name with ⟨hnone, hnone'⟩ | ⟨loaded, loaded', hsome, hsome', -⟩
  · rw [hnone, hnone']
  · simp [hsome, hsome']

theorem StoresAlike.alike {store store' : DocStore} (h : StoresAlike d d' store store')
    {name : String} {loaded loaded' : LoadedDoc} (hloaded : store.docs[name]? = some loaded)
    (hloaded' : store'.docs[name]? = some loaded') : loaded.Alike d d' loaded' := by
  rcases h.2 name with ⟨hnone, -⟩ | ⟨found, found', hfound, hfound', halike⟩
  · rw [hnone] at hloaded
    cases hloaded
  · obtain rfl := Option.some.inj (hfound.symm.trans hloaded)
    obtain rfl := Option.some.inj (hfound'.symm.trans hloaded')
    exact halike

section

variable {store store' : DocStore} (h : StoresAlike d d' store store')

include h

theorem StoresAlike.path_eq (t : ApiType) : store'.path t = store.path t := by
  rw [DocStore.path, DocStore.path, h.1]

/-- What one of two stores gives out, the other one gives out as well. -/
theorem StoresAlike.gives (hrereads : Rereads d d') {loaded : LoadedDoc}
    (hgives : store.Gives d t loaded) :
    ∃ loaded', store'.Gives d' t loaded' ∧ loaded.Alike d d' loaded' := by
  cases hgives with
  | before hloaded =>
    rcases h.2 t.fullName with ⟨hnone, -⟩ | ⟨found, loaded', hfound, hloaded', halike⟩
    · rw [hnone] at hloaded
      cases hloaded
    · obtain rfl := Option.some.inj (hfound.symm.trans hloaded)
      exact ⟨loaded', .before hloaded', halike⟩
  | fromFile hnone hpath hread =>
    obtain ⟨doc', hread', -⟩ := hrereads.read hread
    have halike := LoadedDoc.alike_of_read hrereads hread hread'
    rw [← hpath] at halike
    refine ⟨⟨loaded.path, doc'⟩, .fromFile ((h.none_iff t.fullName).2 hnone) ?_ ?_, halike⟩
    · rw [h.path_eq, hpath]
    · rw [h.path_eq, hread']

theorem StoresAlike.exists_gives (hrereads : Rereads d d') {loaded' : LoadedDoc}
    (hgives : store'.Gives d' t loaded') : ∃ loaded, store.Gives d t loaded := by
  cases hgives with
  | before hloaded' =>
    rcases h.2 t.fullName with ⟨-, hnone'⟩ | ⟨loaded, _, hloaded, -⟩
    · rw [hnone'] at hloaded'
      cases hloaded'
    · exact ⟨loaded, .before hloaded⟩
  | fromFile hnone' _ hread' =>
    rw [h.path_eq] at hread'
    obtain ⟨doc, hread⟩ := hrereads.read' hread'
    exact ⟨⟨store.path t, doc⟩, .fromFile ((h.none_iff t.fullName).1 hnone') rfl hread⟩

/-- Stores stay alike when files that are alike are put under one name. -/
theorem StoresAlike.of_docs {next next' : DocStore} {name : String} {loaded loaded' : LoadedDoc}
    (hroot : next.root = store.root) (hroot' : next'.root = store'.root)
    (hdocs : ∀ other, next.docs[other]? = if name = other then some loaded else store.docs[other]?)
    (hdocs' : ∀ other,
      next'.docs[other]? = if name = other then some loaded' else store'.docs[other]?)
    (halike : loaded.Alike d d' loaded') : StoresAlike d d' next next' := by
  refine ⟨hroot'.trans (h.1.trans hroot.symm), fun other => ?_⟩
  rw [hdocs, hdocs']
  by_cases hname : name = other
  · rw [if_pos hname, if_pos hname]
    exact .inr ⟨loaded, loaded', rfl, rfl, halike⟩
  · rw [if_neg hname, if_neg hname]
    exact h.2 other

/-- Two stores that are alike give out variants of one document, or none, and stay alike when edited
forms of it are put back that are alike. -/
theorem StoresAlike.get (hrereads : Rereads d d') (t : ApiType) :
    (∃ notices notices', store.get d t = (notices, store, none) ∧
      store'.get d' t = (notices', store', none)) ∨
    ∃ notices notices' next next', ∃ loaded loaded' : LoadedDoc,
      store.get d t = (notices, next, some loaded.doc) ∧
      store'.get d' t = (notices', next', some loaded'.doc) ∧ loaded.Alike d d' loaded' ∧
      ∀ doc doc', LoadedDoc.Alike d d' { loaded with doc } { loaded' with doc := doc' } →
        StoresAlike d d' (next.update t.fullName doc) (next'.update t.fullName doc') := by
  rcases store.get_cases d t with ⟨notices, hget, hnothing⟩ |
    ⟨notices, next, loaded, hget, hgives, hroot, hdocs⟩
  · rcases store'.get_cases d' t with ⟨notices', hget', -⟩ | ⟨_, _, _, -, hgives', -⟩
    · exact .inl ⟨notices, notices', hget, hget'⟩
    · obtain ⟨loaded, hgives⟩ := h.exists_gives hrereads hgives'
      exact absurd hgives (hnothing loaded)
  · obtain ⟨found, hfound, halike⟩ := h.gives hrereads hgives
    rcases store'.get_cases d' t with ⟨_, -, hnothing'⟩ |
      ⟨notices', next', loaded', hget', hgives', hroot', hdocs'⟩
    · exact absurd hfound (hnothing' found)
    · -- the store gives out one file at most, so it is the one that is alike
      obtain rfl := hfound.eq hgives'
      refine .inr ⟨notices, notices', next, next', loaded, found, hget, hget', halike, ?_⟩
      intro doc doc' hedited
      exact h.of_docs (hroot doc) (hroot' doc') (hdocs doc) (hdocs' doc') hedited

end

theorem visit_of_get_none {notices : List Notice}
    (h : p.session.store.get p.workspace.disk t = (notices, p.session.store, none)) :
    p.visit t binding =
      { p with
        workspace := p.workspace.noteAll notices
        report.typesSkipped := p.report.typesSkipped + 1 } := by
  simp only [Progress.visit, h]

theorem visit_of_get_some {notices : List Notice} {store : DocStore} {doc : TypeDoc}
    (h : p.session.store.get p.workspace.disk t = (notices, store, some doc)) :
    p.visit t binding =
      let merged := p.session.mergeType
        ((p.workspace.noteAll notices).note (.processing t.fullName)) t binding doc
      { session := { p.session with store := store.update t.fullName merged.2.1 }
        workspace := merged.1
        report :=
          { p.report with
            typesProcessed := p.report.typesProcessed + 1
            merge := p.report.merge + merged.2.2 } } := by
  simp only [Progress.visit, h]

theorem runsAlike_visit (hrereads : Rereads d d') (h : RunsAlike d d' p p')
    (hreads : ∀ notices store doc,
      p.session.store.get p.workspace.disk t = (notices, store, some doc) →
      ∀ path ∈ p.session.mergeReads
        ((p.workspace.noteAll notices).note (.processing t.fullName)) t binding doc,
        SharesFragment d d' path) :
    RunsAlike d d' (p.visit t binding) (p'.visit t binding) := by
  rcases h.stores.get hrereads t with ⟨notices, notices', hget, hget'⟩ |
    ⟨notices, notices', next, next', loaded, loaded', hget, hget', halike, hupdate⟩
  · rw [← h.actsOn.disk] at hget
    rw [← h.actsOn'.disk] at hget'
    rw [visit_of_get_none hget, visit_of_get_none hget']
    exact ⟨Workspace.actsOn_noteAll h.actsOn notices, Workspace.actsOn_noteAll h.actsOn' notices',
      h.session, h.stores, by rw [h.report]⟩
  · rw [← h.actsOn.disk] at hget
    rw [← h.actsOn'.disk] at hget'
    rw [visit_of_get_some hget, visit_of_get_some hget']
    have hw := Workspace.actsOn_note (Workspace.actsOn_noteAll h.actsOn notices)
      (.processing t.fullName)
    have hw' := Workspace.actsOn_note (Workspace.actsOn_noteAll h.actsOn' notices')
      (.processing t.fullName)
    have hmerge := mergesAlike_mergeType hrereads.shape halike.variants hw hw'
      (hreads notices next loaded.doc hget)
    have hsession : p'.session.mergeType ((p'.workspace.noteAll notices').note
          (.processing t.fullName)) t binding loaded'.doc =
        p.session.mergeType ((p'.workspace.noteAll notices').note
          (.processing t.fullName)) t binding loaded'.doc := by
      rw [h.session]
      rfl
    obtain ⟨hacts, hacts', hreport, table, htable, hdoc, hdoc'⟩ := hmerge
    simp only [hsession]
    refine ⟨hacts, hacts', ?_, hupdate _ _ ?_, ?_⟩
    · rw [h.session]
    · rw [hdoc, hdoc']
      exact halike.overwrite htable
    · rw [h.report, hreport]

theorem runsAlike_step (hrereads : Rereads d d') (h : RunsAlike d d' p p')
    (hreads : ∀ path ∈ p.reads t, SharesFragment d d' path) :
    RunsAlike d d' (p.step t) (p'.step t) := by
  have honly : p'.session.onlyType = p.session.onlyType := by rw [h.session]
  unfold Progress.step
  rw [honly]
  split
  · exact h
  · next hasked =>
    cases hbinding : t.binding with
    | none => exact h
    | some binding =>
      refine runsAlike_visit hrereads h fun notices store doc hget path hpath => hreads path ?_
      simp only [Progress.reads, if_neg hasked, hbinding, hget, hpath]

/-- Two runs of one session are alike from the beginning to the end. -/
theorem runsAlike_traverse (hrereads : Rereads d d') {s : Session} (hempty : s.store.docs = ∅)
    {w w' : Workspace} (hw : w.ActsOn d) (hw' : w'.ActsOn d')
    (hreads : ∀ path ∈ s.fragmentFiles w, SharesFragment d d' path) :
    RunsAlike d d' (s.traverse w) (s.traverse w') := by
  refine foldl_rel_of_traceFold (runsAlike_step hrereads) ?_ hreads
  exact ⟨hw, hw', rfl, ⟨rfl, fun name => .inl (by simp [hempty])⟩, rfl⟩

end Session

end ApiDocs
