import ApiDocs.Proofs.Disk.Writable
import ApiDocs.Proofs.Session.Saving

/-!
# Saving documents in order

Documents that can be written are saved one after the other, in ascending order of their full names.
Each of them is found in its file afterwards, if no other one is saved there, and everything else is
as it was. To save them once more changes nothing.
-/

namespace ApiDocs

namespace DocStore

/-- Different documents that are held are in different files of the disk. -/
def Separate (store : DocStore) (d : Disk) : Prop :=
  ∀ doc ∈ store.docs.toList, ∀ other ∈ store.docs.toList, doc.1 ≠ other.1 →
    ∀ place ∈ (d.locate doc.2.path).toOption, (d.locate other.2.path).toOption ≠ some place

instance {store : DocStore} {d : Disk} : Decidable (store.Separate d) :=
  inferInstanceAs (Decidable (∀ doc ∈ store.docs.toList, ∀ other ∈ store.docs.toList, _ → _))

/-- The documents with names that `p` picks, and nothing else, have been saved. -/
structure SavesOnly (store : DocStore) (p : String → Bool) (w after : Workspace) : Prop where
  /-- Each of them is told, in the order in which they are held. -/
  told : after.notices =
    w.notices ++ (store.docs.toList.filter (p ·.1)).map (.documentSaved ·.2.path)
  saved : ∀ (name : String) (loaded : LoadedDoc), store.docs[name]? = some loaded →
    p name = true → after.disk.find loaded.path = .ok loaded.entry
  /-- The files of the other documents stay as they were. -/
  spared : ∀ (name : String) (loaded : LoadedDoc), store.docs[name]? = some loaded →
    p name = false → ∀ place, w.disk.locate loaded.path = .ok place →
    after.disk.lookup? place = w.disk.lookup? place
  /-- And so does everything that is no file of a document. -/
  untouched : ∀ place, (∀ (name : String) (loaded : LoadedDoc), store.docs[name]? = some loaded →
    p name = true → w.disk.locate loaded.path ≠ .ok place) →
    after.disk.lookup? place = w.disk.lookup? place

/-! ## Documents in a row -/

/-- The documents in front of the first that cannot be written to a disk. -/
def savable (d : Disk) (docs : List (String × LoadedDoc)) : List (String × LoadedDoc) :=
  docs.takeWhile fun doc => d.isWritable doc.2.path

theorem savable_cons (d : Disk) (doc : String × LoadedDoc) (rest : List (String × LoadedDoc)) :
    savable d (doc :: rest) =
      if d.isWritable doc.2.path = true then doc :: savable d rest else [] :=
  List.takeWhile_cons

theorem savable_eq_of_sameDirectories {d d' : Disk} (h : Disk.SameDirectories d d')
    (docs : List (String × LoadedDoc)) : savable d' docs = savable d docs := by
  simp only [savable, h.isWritable_eq]

theorem saveEach_append (w : Workspace) (docs others : List (String × LoadedDoc)) :
    saveEach w (docs ++ others) =
      match saveEach w docs with
      | (after, .ok ()) => saveEach after others
      | (after, .error cause) => (after, .error cause) := by
  induction docs generalizing w with
  | nil => rfl
  | cons doc rest ih =>
    rw [List.cons_append, saveEach, saveEach]
    cases w.disk.write doc.2.path doc.2.doc.render.toUTF8 with
    | error cause => rfl
    | ok disk => exact ih _

/-- The paths of the documents can be written, so they are all saved, and `after` is left. -/
structure SavesEach (w : Workspace) (docs : List (String × LoadedDoc)) (after : Workspace) :
    Prop where
  isWritable : ∀ doc ∈ docs, w.disk.isWritable doc.2.path = true
  saveEach : saveEach w docs = (after, .ok ())
  journal : w.journal = none
  journal' : after.journal = none
  notices : after.notices = w.notices ++ docs.map (.documentSaved ·.2.path)
  directories : Disk.SameDirectories w.disk after.disk

variable {w after : Workspace} {docs : List (String × LoadedDoc)}

/-- Saving one document takes from no other that its path can be written. -/
theorem exists_savesEach (hjournal : w.journal = none)
    (h : ∀ doc ∈ docs, w.disk.isWritable doc.2.path = true) : ∃ after, SavesEach w docs after := by
  induction docs generalizing w with
  | nil => exact ⟨w, h, rfl, hjournal, hjournal, (List.append_nil _).symm, .refl _⟩
  | cons doc rest ih =>
    obtain ⟨hdoc, hrest⟩ := List.forall_mem_cons.1 h
    obtain ⟨place, houtput⟩ := Disk.isWritable_iff.1 hdoc
    have hsame : Disk.SameDirectories w.disk (w.disk.put place doc.2.entry) :=
      Disk.sameDirectories_put (Disk.locateOutput_eq_ok_iff.1 houtput).2.2.1 _
    obtain ⟨written, hquiet, hdisk, htold, hcons⟩ :=
      exists_saveEach_cons hjournal (Disk.write_of_locateOutput houtput _) rest
    obtain ⟨after, hafter⟩ := ih hquiet fun other hother => by
      rw [hdisk]
      exact (hsame.isWritable_eq other.2.path).trans (hrest other hother)
    have hdirectories := hafter.directories
    rw [hdisk] at hdirectories
    refine ⟨after, h, hcons.trans hafter.saveEach, hjournal, hafter.journal', ?_,
      hsame.trans hdirectories⟩
    rw [hafter.notices, htold, List.map_cons, List.append_assoc]
    rfl

theorem lastSaved?_eq_of_sameDirectories {d d' : Disk} (h : Disk.SameDirectories d d')
    (docs : List (String × LoadedDoc)) (place : Location) :
    lastSaved? d' docs place = lastSaved? d docs place := by
  simp only [lastSaved?, h.toOption_locate_eq]

theorem SavesEach.lookup?_eq (h : SavesEach w docs after) (place : Location) :
    after.disk.lookup? place =
      ((lastSaved? w.disk docs place).map (·.2.entry)).or (w.disk.lookup? place) := by
  obtain ⟨-, -, hentries⟩ := saveEach_eq_ok h.journal h.saveEach
  rw [hentries, lastSaved?_eq_of_sameDirectories h.directories]

theorem SavesEach.again (h : SavesEach w docs after) {v : Workspace} (hjournal : v.journal = none)
    (hsame : Disk.SameEntries after.disk v.disk) :
    ∃ left, SavesEach v docs left ∧ Disk.SameEntries after.disk left.disk := by
  have hdirectories := h.directories.trans hsame.sameDirectories
  obtain ⟨left, hleft⟩ := exists_savesEach hjournal fun doc hdoc =>
    (hdirectories.isWritable_eq doc.2.path).trans (h.isWritable doc hdoc)
  refine ⟨left, hleft, ?_, ?_, fun place => ?_⟩
  · rw [hleft.directories.workingDirectory, hsame.workingDirectory]
  · rw [hleft.directories.refusal?, hsame.refusal?]
  · rw [hleft.lookup?_eq, hsame.lookup?_eq, h.lookup?_eq,
      lastSaved?_eq_of_sameDirectories hdirectories]
    cases lastSaved? w.disk docs place <;> rfl

/-! ## Documents by name -/

variable {store : DocStore}

theorem Separate.locate_ne {d : Disk} (h : store.Separate d) {name other : String}
    {loaded found : LoadedDoc} (hloaded : store.docs[name]? = some loaded)
    (hfound : store.docs[other]? = some found) (hne : name ≠ other) {place : Location}
    (hlocate : d.locate loaded.path = .ok place) : d.locate found.path ≠ .ok place := by
  intro hother
  have hmem := Std.ExtTreeMap.mem_toList_iff_getElem?_eq_some.2 hloaded
  have hmem' := Std.ExtTreeMap.mem_toList_iff_getElem?_eq_some.2 hfound
  exact h (name, loaded) hmem (other, found) hmem' hne place
    (Disk.toOption_eq_some_iff.2 hlocate) (Disk.toOption_eq_some_iff.2 hother)

theorem separate_of_locate_ne {d : Disk}
    (h : ∀ (name other : String) (loaded found : LoadedDoc), store.docs[name]? = some loaded →
      store.docs[other]? = some found → name ≠ other →
      ∀ place, d.locate loaded.path = .ok place → d.locate found.path ≠ .ok place) :
    store.Separate d := by
  intro doc hdoc found hfound hne place hplace hother
  rw [Std.ExtTreeMap.mem_toList_iff_getElem?_eq_some] at hdoc hfound
  refine h _ _ _ _ hdoc hfound hne place ?_ ?_
  · exact Disk.toOption_eq_some_iff.1 hplace
  · exact Disk.toOption_eq_some_iff.1 hother

theorem pairwise_toList (store : DocStore) :
    store.docs.toList.Pairwise fun doc other => doc.1 < other.1 := by
  have hordered : store.docs.toList.Pairwise fun doc other => compare doc.1 other.1 = .lt :=
    Std.ExtTreeMap.ordered_keys_toList
  exact hordered.imp compareOfLessAndEq_eq_lt.1

theorem filter_lt_of_toList {front back : List (String × LoadedDoc)} {doc : String × LoadedDoc}
    (h : store.docs.toList = front ++ doc :: back) :
    store.docs.toList.filter (·.1 < doc.1) = front := by
  have hpairs := store.pairwise_toList
  rw [h, List.pairwise_append, List.pairwise_cons] at hpairs
  obtain ⟨-, ⟨hback, -⟩, hfront⟩ := hpairs
  rw [h, List.filter_append, List.filter_eq_self.2, List.filter_eq_nil_iff.2, List.append_nil]
  · intro other hother
    rcases List.mem_cons.1 hother with rfl | hbehind
    · simp
    · simpa using String.lt_asymm (hback other hbehind)
  · intro other hother
    simpa using hfront other hother doc List.mem_cons_self

/-- Saving comes to a document if it can be written, and each one with a smaller name can. -/
theorem mem_savable_iff {d : Disk} {doc : String × LoadedDoc} (h : doc ∈ store.docs.toList) :
    doc ∈ savable d store.docs.toList ↔
      ∀ first ∈ store.docs.toList, first.1 ≤ doc.1 → d.isWritable first.2.path = true := by
  have hordered := store.pairwise_toList
  generalize store.docs.toList = docs at h hordered
  induction docs with
  | nil => cases h
  | cons first rest ih =>
    obtain ⟨hfirst, hrest⟩ := List.pairwise_cons.1 hordered
    rw [savable_cons, List.forall_mem_cons]
    cases hwritable : d.isWritable first.2.path with
    | false =>
      have hle : first.1 ≤ doc.1 := by
        rcases List.mem_cons.1 h with rfl | hlater
        · exact String.le_refl _
        · exact String.not_lt.1 (String.lt_asymm (hfirst doc hlater))
      simp [hle]
    | true =>
      rw [if_pos rfl, and_iff_right fun _ => rfl]
      rcases List.mem_cons.1 h with rfl | hlater
      · have hnone : ∀ later ∈ rest, ¬ later.1 ≤ doc.1 := by
          intro later hlater
          exact String.not_le.2 (hfirst later hlater)
        simp +contextual [hnone]
      · have hne : doc ≠ first := by
          rintro rfl
          exact String.lt_irrefl _ (hfirst doc hlater)
        rw [List.mem_cons, or_iff_right hne]
        exact ih hlater hrest

theorem mem_filter_iff {p : String → Bool} {name : String} {loaded : LoadedDoc} :
    (name, loaded) ∈ store.docs.toList.filter (p ·.1) ↔
      store.docs[name]? = some loaded ∧ p name = true := by
  rw [List.mem_filter, Std.ExtTreeMap.mem_toList_iff_getElem?_eq_some]

theorem lastSaved?_filter {d : Disk} (hseparate : store.Separate d) {p : String → Bool}
    {name : String} {loaded : LoadedDoc} (hloaded : store.docs[name]? = some loaded)
    (hp : p name = true) {place : Location} (hlocate : d.locate loaded.path = .ok place) :
    lastSaved? d (store.docs.toList.filter (p ·.1)) place = some (name, loaded) := by
  apply lastSaved?_of_mem (mem_filter_iff.2 ⟨hloaded, hp⟩) hlocate
  rintro ⟨other, found⟩ hmem hplace
  obtain ⟨hfound, -⟩ := mem_filter_iff.1 hmem
  by_cases hname : name = other
  · subst hname
    rw [Option.some.inj (hfound.symm.trans hloaded)]
  · exact absurd hplace (hseparate.locate_ne hloaded hfound hname hlocate)

theorem SavesEach.savesOnly {p : String → Bool}
    (h : SavesEach w (store.docs.toList.filter (p ·.1)) after)
    (hseparate : store.Separate w.disk) : store.SavesOnly p w after := by
  have huntouched : ∀ place, (∀ (name : String) (loaded : LoadedDoc),
      store.docs[name]? = some loaded → p name = true → w.disk.locate loaded.path ≠ .ok place) →
      after.disk.lookup? place = w.disk.lookup? place := by
    intro place hspared
    rw [h.lookup?_eq]
    cases hlast : lastSaved? w.disk (store.docs.toList.filter (p ·.1)) place with
    | none => rfl
    | some last =>
      obtain ⟨hmem, hlocate⟩ := locate_of_lastSaved? hlast
      obtain ⟨hloaded, hp⟩ := mem_filter_iff.1 hmem
      exact absurd hlocate (hspared last.1 last.2 hloaded hp)
  refine ⟨h.notices, fun name loaded hloaded hp => ?_,
    fun name loaded hloaded hp place hlocate => ?_, huntouched⟩
  · have hwritable := h.isWritable (name, loaded) (mem_filter_iff.2 ⟨hloaded, hp⟩)
    obtain ⟨place, houtput⟩ := Disk.isWritable_iff.1 hwritable
    have hlocate := (Disk.locateOutput_eq_ok_iff.1 houtput).2.1
    have hentry : after.disk.lookup? place = some loaded.entry := by
      rw [h.lookup?_eq, lastSaved?_filter hseparate hloaded hp hlocate]
      rfl
    simp only [Disk.find, h.directories.locate_eq_ok_iff.2 hlocate, bind, Except.bind, hentry]
  · refine huntouched place fun other found hfound hother => ?_
    refine hseparate.locate_ne hloaded hfound ?_ hlocate
    rintro rfl
    simp [hp] at hother

end DocStore

end ApiDocs
