import ApiDocs.Proofs.Store.History
import ApiDocs.Proofs.Store.InOrder

/-!
# Saving that is interrupted

Saving stops at the first document that cannot be written. By then all smaller full names are saved,
and nothing else was touched. What was saved is only written once more when saving is repeated, so
in the end nothing shows of the interruption.
-/

namespace ApiDocs

namespace Disk

/-- A change does the same to two disks: what a place holds, and why it may not be written to, stays as
it was on either of them, or becomes the same on both. -/
structure ChangesAlike (change : Disk → Disk) (d d' : Disk) : Prop where
  workingDirectory : (change d).workingDirectory = d.workingDirectory
  workingDirectory' : (change d').workingDirectory = d'.workingDirectory
  refusal?_or : ∀ place, (change d').refusal? place = (change d).refusal? place ∨
    (change d).refusal? place = d.refusal? place ∧ (change d').refusal? place = d'.refusal? place
  lookup?_or : ∀ place, (change d').lookup? place = (change d).lookup? place ∨
    (change d).lookup? place = d.lookup? place ∧ (change d').lookup? place = d'.lookup? place

variable {d d' : Disk}

theorem ChangesAlike.sameDirectories {change : Disk → Disk} (h : ChangesAlike change d d')
    (hsame : SameDirectories d d') : SameDirectories (change d) (change d') := by
  refine ⟨?_, funext fun place => ?_, fun place => ?_⟩
  · rw [h.workingDirectory', h.workingDirectory, hsame.workingDirectory]
  · rcases h.refusal?_or place with heq | ⟨heq, heq'⟩
    · exact heq
    · rw [heq, heq', hsame.refusal?]
  · rcases h.lookup?_or place with heq | ⟨heq, heq'⟩
    · rw [heq]
    · rw [heq, heq', hsame.directory]

theorem lookup?_removeTree (d : Disk) (place p : Location) :
    (d.removeTree place).lookup? p =
      if p ≠ [] ∧ place <:+ p then none else d.lookup? p := by
  by_cases hroot : p = []
  · simp [lookup?, hroot]
  · simp only [lookup?, removeTree, hroot, if_false, Std.ExtTreeMap.getElem?_filter']
    by_cases hplace : place <:+ p <;> cases d.entries[p]? <;> simp [hplace, hroot, Option.filter]

theorem changesAlike_removeTree (d d' : Disk) (place : Location) :
    ChangesAlike (·.removeTree place) d d' := by
  refine ⟨rfl, rfl, fun p => .inr ⟨rfl, rfl⟩, fun p => ?_⟩
  rw [lookup?_removeTree, lookup?_removeTree]
  split
  · exact .inl rfl
  · exact .inr ⟨rfl, rfl⟩

end Disk

namespace DocStore

variable {w after : Workspace} {store : DocStore}

/-! ## How far saving comes -/

theorem saveAll_eq (store : DocStore) (w : Workspace) :
    store.saveAll w = ((saveEach w store.docs.toList).1,
      (saveEach w store.docs.toList).2.map fun _ => store.docs.size) := rfl

theorem SavesEach.saveAll_eq (h : SavesEach w store.docs.toList after) :
    store.saveAll w = (after, .ok store.docs.size) := by
  rw [DocStore.saveAll_eq, h.saveEach]
  rfl

theorem SavesEach.saveAll_stops {front back : List (String × LoadedDoc)} {doc : String × LoadedDoc}
    (h : SavesEach w front after) (hsplit : store.docs.toList = front ++ doc :: back)
    {cause : Disk.Error} (hcause : after.disk.locateOutput doc.2.path = .error cause) :
    store.saveAll w = (after, .error (.disk (.saveDocument doc.1 doc.2.path) cause)) := by
  rw [DocStore.saveAll_eq, hsplit, saveEach_append, h.saveEach]
  simp only [DocStore.saveEach, Disk.write_eq_error_iff.2 hcause]
  rfl

/-- Saving ends behind the last document, or in front of the first that cannot be written. -/
theorem exists_front (store : DocStore) (hjournal : w.journal = none) :
    ∃ front back after, store.docs.toList = front ++ back ∧ SavesEach w front after ∧
      (back = [] ∨ ∃ doc rest cause, back = doc :: rest ∧
        w.disk.isWritable doc.2.path = false ∧
        after.disk.locateOutput doc.2.path = .error cause) := by
  cases hfirst : store.docs.toList.find? fun doc => ! w.disk.isWritable doc.2.path with
  | none =>
    have hall : ∀ doc ∈ store.docs.toList, w.disk.isWritable doc.2.path = true := by
      simpa using List.find?_eq_none.1 hfirst
    obtain ⟨after, hafter⟩ := exists_savesEach hjournal hall
    exact ⟨_, [], after, (List.append_nil _).symm, hafter, .inl rfl⟩
  | some doc =>
    obtain ⟨hdoc, front, back, hsplit, hfront⟩ := List.find?_eq_some_iff_append.1 hfirst
    have hdoc : w.disk.isWritable doc.2.path = false := by simpa using hdoc
    obtain ⟨after, hafter⟩ := exists_savesEach hjournal (by simpa using hfront)
    refine ⟨front, doc :: back, after, hsplit, hafter, .inr ⟨doc, back, ?_⟩⟩
    have hstill := (hafter.directories.isWritable_eq doc.2.path).trans hdoc
    cases houtput : after.disk.locateOutput doc.2.path with
    | ok place => simp [Disk.isWritable_iff.2 ⟨place, houtput⟩] at hstill
    | error cause => exact ⟨cause, rfl, hdoc, rfl⟩

/-- Where a change has made the same of the disks before and after an interruption, and all paths
can be written, saving leaves the same on both. -/
theorem SavesEach.resume {front docs : List (String × LoadedDoc)} (h : SavesEach w front after)
    (hfront : ∀ doc ∈ front, doc ∈ docs) {change : Disk → Disk}
    (hchange : Disk.ChangesAlike change w.disk after.disk) {v v' once : Workspace}
    (hv : v.disk = change w.disk) (hv' : v'.disk = change after.disk) (hjournal : v'.journal = none)
    (honce : SavesEach v docs once) :
    ∃ again, SavesEach v' docs again ∧ Disk.SameEntries once.disk again.disk := by
  have hsame : Disk.SameDirectories v.disk v'.disk := by
    rw [hv, hv']
    exact hchange.sameDirectories h.directories
  obtain ⟨again, hagain⟩ := exists_savesEach hjournal fun doc hdoc =>
    (hsame.isWritable_eq doc.2.path).trans (honce.isWritable doc hdoc)
  refine ⟨again, hagain, ?_, ?_, fun place => ?_⟩
  · rw [hagain.directories.workingDirectory, hsame.workingDirectory,
      honce.directories.workingDirectory]
  · rw [hagain.directories.refusal?, hsame.refusal?, honce.directories.refusal?]
  · rw [hagain.lookup?_eq, honce.lookup?_eq, lastSaved?_eq_of_sameDirectories hsame]
    cases hlast : lastSaved? v.disk docs place with
    | some last => rfl
    | none =>
      -- no document is saved at the place, so the interrupted saving has not written there either
      have hspared : lastSaved? w.disk front place = none := by
        refine Option.eq_none_iff_forall_ne_some.2 fun doc hdoc => ?_
        obtain ⟨hmem, hlocate⟩ := locate_of_lastSaved? hdoc
        obtain ⟨found, houtput⟩ := Disk.isWritable_iff.1 (honce.isWritable doc (hfront doc hmem))
        have hfound := (Disk.locateOutput_eq_ok_iff.1 houtput).2.1
        have hdirectory : v.disk.workingDirectory = w.disk.workingDirectory := by
          rw [hv, hchange.workingDirectory]
        obtain rfl := Disk.locate_unique hdirectory hlocate hfound
        have hnone := List.find?_eq_none.1 hlast doc (List.mem_reverse.2 (hfront doc hmem))
        simp [hfound, Except.toOption] at hnone
      rw [hv, hv']
      rcases hchange.lookup?_or place with heq | ⟨heq, heq'⟩
      · rw [heq]
      · rw [heq, heq', h.lookup?_eq, hspared]
        rfl

namespace State

def saved (s : State) : Except Failure Nat :=
  (s.store.saveAll s.workspace).2

/-- What saving does in a state, be it interrupted or not. -/
structure SavesCleanly (s : State) : Prop where
  /-- What is held does not change. -/
  store : (s.step .saveAll).store = s.store
  /-- It is saved in ascending order of full names. -/
  ascending : s.store.docs.toList.Pairwise fun doc other => doc.1 < other.1
  complete : (∀ (name : String) (loaded : LoadedDoc), s.store.docs[name]? = some loaded →
      s.workspace.disk.isWritable loaded.path = true) →
    s.saved = .ok s.store.docs.size ∧
      s.store.SavesOnly (fun _ => true) s.workspace (s.step .saveAll).workspace
  /-- The first path that cannot be written stops it, for the reason that it cannot be written. -/
  stopped : (∃ (name : String) (loaded : LoadedDoc), s.store.docs[name]? = some loaded ∧
      s.workspace.disk.isWritable loaded.path = false) →
    ∃ (name : String) (loaded : LoadedDoc) (cause : Disk.Error),
      s.store.docs[name]? = some loaded ∧ s.workspace.disk.isWritable loaded.path = false ∧
      (∀ (other : String) (found : LoadedDoc), s.store.docs[other]? = some found → other < name →
        s.workspace.disk.isWritable found.path = true) ∧
      s.saved = .error (.disk (.saveDocument name loaded.path) cause) ∧
      (s.step .saveAll).workspace.disk.write loaded.path loaded.doc.render.toUTF8 = .error cause ∧
      s.store.SavesOnly (· < name) s.workspace (s.step .saveAll).workspace
  /-- Once others have cleared all paths, saving again leaves what saving once would have left. -/
  resumed : ∀ change, Disk.ChangesAlike change s.workspace.disk (s.step .saveAll).workspace.disk →
    (∀ (name : String) (loaded : LoadedDoc), s.store.docs[name]? = some loaded →
      (change s.workspace.disk).isWritable loaded.path = true) →
    (s.run [.outside change]).saved = .ok s.store.docs.size ∧
      (s.run [.saveAll, .outside change]).saved = .ok s.store.docs.size ∧
      Disk.SameEntries (s.run [.outside change, .saveAll]).workspace.disk
        (s.run [.saveAll, .outside change, .saveAll]).workspace.disk
  /-- Saving again at once changes nothing. -/
  again : (s.run [.saveAll]).saved = s.saved ∧
    Disk.SameEntries (s.run [.saveAll]).workspace.disk (s.run [.saveAll, .saveAll]).workspace.disk

variable {s : State}

theorem step_saveAll (s : State) :
    s.step .saveAll = ⟨s.store, (s.store.saveAll s.workspace).1⟩ := rfl

theorem savesOnly_of_savesEach (hseparate : s.store.Separate s.workspace.disk) {after : Workspace}
    (hafter : SavesEach s.workspace s.store.docs.toList after) :
    s.saved = .ok s.store.docs.size ∧
      s.store.SavesOnly (fun _ => true) s.workspace (s.step .saveAll).workspace := by
  rw [saved, step_saveAll, hafter.saveAll_eq]
  refine ⟨rfl, SavesEach.savesOnly ?_ hseparate⟩
  rwa [List.filter_eq_self.2 fun _ _ => rfl]

theorem savesOnly_of_stop (hseparate : s.store.Separate s.workspace.disk)
    {front back : List (String × LoadedDoc)} {doc : String × LoadedDoc} {after : Workspace}
    {cause : Disk.Error} (hsplit : s.store.docs.toList = front ++ doc :: back)
    (hafter : SavesEach s.workspace front after)
    (hcause : after.disk.locateOutput doc.2.path = .error cause) :
    (∀ (other : String) (found : LoadedDoc), s.store.docs[other]? = some found → other < doc.1 →
        s.workspace.disk.isWritable found.path = true) ∧
      s.saved = .error (.disk (.saveDocument doc.1 doc.2.path) cause) ∧
      (s.step .saveAll).workspace.disk.write doc.2.path doc.2.doc.render.toUTF8 = .error cause ∧
      s.store.SavesOnly (· < doc.1) s.workspace (s.step .saveAll).workspace := by
  have hfront := filter_lt_of_toList hsplit
  rw [saved, step_saveAll, hafter.saveAll_stops hsplit hcause]
  refine ⟨fun other found hfound hlt => ?_, rfl, Disk.write_eq_error_iff.2 hcause,
    SavesEach.savesOnly (hfront ▸ hafter) hseparate⟩
  refine hafter.isWritable (other, found) ?_
  rw [← hfront, mem_filter_iff (p := (· < doc.1))]
  exact ⟨hfound, by simpa using hlt⟩

theorem sameEntries_of_resumed {front back : List (String × LoadedDoc)} {after : Workspace}
    (hsplit : s.store.docs.toList = front ++ back) (hafter : SavesEach s.workspace front after)
    (hstep : (s.step .saveAll).workspace = after) {change : Disk → Disk}
    (hchange : Disk.ChangesAlike change s.workspace.disk after.disk)
    (h : ∀ doc ∈ s.store.docs.toList, (change s.workspace.disk).isWritable doc.2.path = true) :
    (s.run [.outside change]).saved = .ok s.store.docs.size ∧
      (s.run [.saveAll, .outside change]).saved = .ok s.store.docs.size ∧
      Disk.SameEntries (s.run [.outside change, .saveAll]).workspace.disk
        (s.run [.saveAll, .outside change, .saveAll]).workspace.disk := by
  have hcleared : s.run [.saveAll, .outside change] =
      ⟨s.store, { after with disk := change after.disk }⟩ := by rw [← hstep]; rfl
  have honce : ∃ once, SavesEach (s.run [.outside change]).workspace s.store.docs.toList once :=
    exists_savesEach hafter.journal h
  obtain ⟨once, honce⟩ := honce
  have hagain : ∃ again,
      SavesEach (s.run [.saveAll, .outside change]).workspace s.store.docs.toList again ∧
        Disk.SameEntries once.disk again.disk := by
    rw [hcleared]
    exact hafter.resume (fun doc hdoc => hsplit ▸ List.mem_append_left back hdoc) hchange rfl rfl
      hafter.journal' honce
  obtain ⟨again, hagain, hsame⟩ := hagain
  have hfirst : (s.run [.outside change]).store.saveAll (s.run [.outside change]).workspace =
      (once, .ok s.store.docs.size) := honce.saveAll_eq
  have hsecond : (s.run [.saveAll, .outside change]).store.saveAll
      (s.run [.saveAll, .outside change]).workspace = (again, .ok s.store.docs.size) :=
    hagain.saveAll_eq
  refine ⟨by rw [saved, hfirst], by rw [saved, hsecond], ?_⟩
  have hleft : (s.run [.outside change, .saveAll]).workspace = once := congrArg Prod.fst hfirst
  have hright : (s.run [.saveAll, .outside change, .saveAll]).workspace = again :=
    congrArg Prod.fst hsecond
  rwa [hleft, hright]

theorem sameEntries_of_again {front back : List (String × LoadedDoc)} {after : Workspace}
    (hsplit : s.store.docs.toList = front ++ back) (hafter : SavesEach s.workspace front after)
    (hback : back = [] ∨ ∃ doc rest cause, back = doc :: rest ∧
      after.disk.locateOutput doc.2.path = .error cause) :
    (s.run [.saveAll]).saved = s.saved ∧
      Disk.SameEntries (s.run [.saveAll]).workspace.disk
        (s.run [.saveAll, .saveAll]).workspace.disk := by
  obtain ⟨left, hleft, hsame⟩ := hafter.again hafter.journal' ⟨rfl, rfl, fun _ => rfl⟩
  have hends : ∃ result, s.store.saveAll s.workspace = (after, result) ∧
      s.store.saveAll after = (left, result) := by
    rcases hback with rfl | ⟨doc, rest, cause, rfl, hcause⟩
    · rw [List.append_nil] at hsplit
      subst hsplit
      exact ⟨_, hafter.saveAll_eq, hleft.saveAll_eq⟩
    · have hstill := (hsame.sameShape.locateOutput_eq doc.2.path).trans hcause
      exact ⟨_, hafter.saveAll_stops hsplit hcause, hleft.saveAll_stops hsplit hstill⟩
  obtain ⟨result, hfirst, hsecond⟩ := hends
  have hrun : s.run [.saveAll] = ⟨s.store, after⟩ := by
    show s.step .saveAll = _
    rw [step_saveAll, hfirst]
  have hrun' : s.run [.saveAll, .saveAll] = ⟨s.store, left⟩ := by
    show (s.run [.saveAll]).step .saveAll = _
    rw [hrun, step_saveAll, hsecond]
  rw [hrun, hrun', saved, saved, hfirst, hsecond]
  exact ⟨rfl, hsame⟩

/-- As long as the documents are in different files, an interruption does no harm that saving again
would not mend. -/
theorem savesCleanly (hjournal : s.workspace.journal = none)
    (hseparate : s.store.Separate s.workspace.disk) : s.SavesCleanly := by
  obtain ⟨front, back, after, hsplit, hafter, hback⟩ := s.store.exists_front hjournal
  have hwritable : ∀ d : Disk, (∀ (name : String) (loaded : LoadedDoc),
      s.store.docs[name]? = some loaded → d.isWritable loaded.path = true) →
      ∀ doc ∈ s.store.docs.toList, d.isWritable doc.2.path = true := fun d h doc hdoc =>
    h doc.1 doc.2 (Std.ExtTreeMap.mem_toList_iff_getElem?_eq_some.1 hdoc)
  have hstep : (s.step .saveAll).workspace = after := by
    rw [step_saveAll]
    rcases hback with rfl | ⟨doc, rest, cause, rfl, -, hcause⟩
    · rw [List.append_nil] at hsplit
      subst hsplit
      rw [hafter.saveAll_eq]
    · rw [hafter.saveAll_stops hsplit hcause]
  refine ⟨rfl, s.store.pairwise_toList, fun h => ?_, fun ⟨name, loaded, hloaded, hrefused⟩ => ?_,
    fun change hchange h => ?_, ?_⟩
  · obtain ⟨all, hall⟩ := exists_savesEach hjournal (hwritable _ h)
    exact savesOnly_of_savesEach hseparate hall
  · rcases hback with rfl | ⟨doc, rest, cause, rfl, hdoc, hcause⟩
    · have hmem := Std.ExtTreeMap.mem_toList_iff_getElem?_eq_some.2 hloaded
      rw [hsplit, List.append_nil] at hmem
      have hfine := hafter.isWritable _ hmem
      rw [hrefused] at hfine
      cases hfine
    · have hmem : doc ∈ s.store.docs.toList := hsplit ▸ List.mem_append_right _ List.mem_cons_self
      exact ⟨doc.1, doc.2, cause, Std.ExtTreeMap.mem_toList_iff_getElem?_eq_some.1 hmem, hdoc,
        savesOnly_of_stop hseparate hsplit hafter hcause⟩
  · exact sameEntries_of_resumed hsplit hafter hstep (hstep ▸ hchange) (hwritable _ h)
  · refine sameEntries_of_again hsplit hafter (hback.imp_right ?_)
    rintro ⟨doc, rest, cause, hcons, -, hcause⟩
    exact ⟨doc, rest, cause, hcons, hcause⟩

/-- The second of three files has become a directory, which is taken away again later. -/
theorem savesCleanly_around_directory :
    let letter (name : String) : ApiType := { nameSpace := "", name }
    let start : State := ⟨{ root := "en" }, { disk := {} }⟩
    let s := start.run [
      .outside (·.placeFile "en/A.xml" "<a/>".toUTF8),
      .outside (·.placeFile "en/B.xml" "<b/>".toUTF8),
      .outside (·.placeFile "en/C.xml" "<c/>".toUTF8),
      .use (letter "C") id,
      .use (letter "A") fun doc => { doc with document.root.name := "edited" },
      .use (letter "B") id,
      .outside fun d => (d.remove "en/B.xml").placeDirectory "en/B.xml"]
    let clear : Disk → Disk := (·.removeTree ["B.xml", "en"])
    s.workspace.journal = none ∧ s.store.Separate s.workspace.disk ∧ s.SavesCleanly ∧
      s.saved = .error (.disk (.saveDocument "B" "en/B.xml") .isDirectory) ∧
      (s.run [.saveAll, .outside clear]).saved = .ok 3 ∧
      Disk.SameEntries (s.run [.outside clear, .saveAll]).workspace.disk
        (s.run [.saveAll, .outside clear, .saveAll]).workspace.disk := by
  intro letter start s clear
  have hjournal : s.workspace.journal = none := by decide +kernel
  have hseparate : s.store.Separate s.workspace.disk := by decide +kernel
  have hclean := savesCleanly hjournal hseparate
  have hclear : ∀ (name : String) (loaded : LoadedDoc), s.store.docs[name]? = some loaded →
      (clear s.workspace.disk).isWritable loaded.path = true := by
    have hall : ∀ doc ∈ s.store.docs.toList,
        (clear s.workspace.disk).isWritable doc.2.path = true := by decide +kernel
    exact fun name loaded hloaded =>
      hall (name, loaded) (Std.ExtTreeMap.mem_toList_iff_getElem?_eq_some.2 hloaded)
  obtain ⟨-, hsaved, hsame⟩ :=
    hclean.resumed clear (Disk.changesAlike_removeTree _ _ _) hclear
  have hsize : s.store.docs.size = 3 := by decide +kernel
  exact ⟨hjournal, hseparate, hclean, by decide +kernel, hsize ▸ hsaved, hsame⟩

end State

end DocStore

end ApiDocs
