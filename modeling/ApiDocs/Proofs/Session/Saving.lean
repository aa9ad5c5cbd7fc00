import ApiDocs.Proofs.Disk.Writing
import ApiDocs.Proofs.Merge.SettledDoc
import ApiDocs.Store

/-!
# Saving documents

Documents are written to the files that they came from, one after the other. A place that several of
them lead to holds the last of them in the end, and what is read there afterwards is that document,
if it is settled.
-/

namespace ApiDocs

def LoadedDoc.entry (loaded : LoadedDoc) : Disk.Entry :=
  .file loaded.doc.render.toUTF8

namespace DocStore

/-- The last of the documents that is written to a place. -/
def lastSaved? (d : Disk) (docs : List (String × LoadedDoc)) (place : Location) :
    Option (String × LoadedDoc) :=
  docs.reverse.find? fun (_, loaded) => (d.locate loaded.path).toOption = some place

theorem lastSaved?_cons (d : Disk) (doc : String × LoadedDoc) (rest : List (String × LoadedDoc))
    (place : Location) :
    lastSaved? d (doc :: rest) place =
      (lastSaved? d rest place).or
        (if (d.locate doc.2.path).toOption = some place then some doc else none) := by
  rw [lastSaved?, List.reverse_cons, List.find?_append]
  by_cases h : (d.locate doc.2.path).toOption = some place <;> simp [lastSaved?, h]

theorem lastSaved?_eq_of_sameShape {d d' : Disk} (h : Disk.SameShape d d')
    (docs : List (String × LoadedDoc)) (place : Location) :
    lastSaved? d' docs place = lastSaved? d docs place := by
  simp only [lastSaved?, h.locate_eq]

theorem locate_of_lastSaved? {d : Disk} {docs : List (String × LoadedDoc)} {place : Location}
    {doc : String × LoadedDoc} (h : lastSaved? d docs place = some doc) :
    doc ∈ docs ∧ d.locate doc.2.path = .ok place := by
  refine ⟨List.mem_reverse.1 (List.mem_of_find?_eq_some h), ?_⟩
  have hplace := List.find?_some h
  cases hlocate : d.locate doc.2.path with
  | error cause => simp [hlocate, Except.toOption] at hplace
  | ok found => simpa [hlocate, Except.toOption] using hplace

/-- A document stays at its place if no other one is written there. -/
theorem lastSaved?_of_mem {d : Disk} {docs : List (String × LoadedDoc)} {doc : String × LoadedDoc}
    (hmem : doc ∈ docs) {place : Location} (hlocate : d.locate doc.2.path = .ok place)
    (halone : ∀ other ∈ docs, d.locate other.2.path = .ok place → other = doc) :
    lastSaved? d docs place = some doc := by
  cases hlast : lastSaved? d docs place with
  | none =>
    have hnone := List.find?_eq_none.1 hlast doc (List.mem_reverse.2 hmem)
    simp [hlocate, Except.toOption] at hnone
  | some last =>
    obtain ⟨hlast, hplace⟩ := locate_of_lastSaved? hlast
    rw [halone last hlast hplace]

theorem lastSaved?_of_alone {store : DocStore} {d : Disk} {place : Location} {name : String}
    {loaded : LoadedDoc} (hloaded : store.docs[name]? = some loaded)
    (hlocate : d.locate loaded.path = .ok place)
    (halone : ∀ (other : String) (found : LoadedDoc), store.docs[other]? = some found →
      other ≠ name → d.locate found.path ≠ .ok place) :
    lastSaved? d store.docs.toList place = some (name, loaded) := by
  apply lastSaved?_of_mem (Std.ExtTreeMap.mem_toList_iff_getElem?_eq_some.2 hloaded) hlocate
  rintro ⟨other, found⟩ hmem hplace
  have hfound := Std.ExtTreeMap.mem_toList_iff_getElem?_eq_some.1 hmem
  by_cases hname : other = name
  · subst hname
    rw [Option.some.inj (hfound.symm.trans hloaded)]
  · exact absurd hplace (halone other found hfound hname)

/-- The names and the paths of the documents decide which of them stays. -/
theorem lastSaved?_congr (d : Disk) {docs docs' : List (String × LoadedDoc)}
    (h : docs'.map (fun doc => (doc.1, doc.2.path)) = docs.map fun doc => (doc.1, doc.2.path))
    (place : Location) :
    (lastSaved? d docs' place).map (·.1) = (lastSaved? d docs place).map (·.1) := by
  have hfind : ∀ docs : List (String × LoadedDoc), (lastSaved? d docs place).map (·.1) =
      ((docs.map fun doc => (doc.1, doc.2.path)).reverse.find? fun key =>
        (d.locate key.2).toOption = some place).map (·.1) := by
    intro docs
    rw [← List.map_reverse, List.find?_map, Option.map_map]
    rfl
  rw [hfind, hfind, h]

theorem disk_noteSaved {w : Workspace} (hjournal : w.journal = none) (disk : Disk) (n : Notice) :
    (Workspace.note { w with disk } n).disk = disk :=
  Workspace.disk_note_of_journal_eq_none (w := { w with disk }) hjournal n

/-- Once a document is written, and that is told, the others follow. -/
theorem exists_saveEach_cons {w : Workspace} (hjournal : w.journal = none)
    {doc : String × LoadedDoc} {disk : Disk}
    (hwrite : w.disk.write doc.2.path doc.2.doc.render.toUTF8 = .ok disk)
    (rest : List (String × LoadedDoc)) :
    ∃ written : Workspace, written.journal = none ∧ written.disk = disk ∧
      written.notices = w.notices ++ [.documentSaved doc.2.path] ∧
      saveEach w (doc :: rest) = saveEach written rest := by
  refine ⟨Workspace.note { w with disk } (.documentSaved doc.2.path), ?_,
    disk_noteSaved hjournal disk _, rfl, ?_⟩
  · rw [Workspace.journal_note, hjournal]
  · rw [saveEach, hwrite]

/-- Where everything could be written, each place holds the last document that was written there. -/
theorem saveEach_eq_ok {w after : Workspace} (hjournal : w.journal = none)
    {docs : List (String × LoadedDoc)} (h : saveEach w docs = (after, .ok ())) :
    Disk.KeepsDirectories w.disk after.disk ∧
      (∀ doc ∈ docs, ∃ place, after.disk.locate doc.2.path = .ok place) ∧
      ∀ place, after.disk.lookup? place =
        ((lastSaved? after.disk docs place).map (·.2.entry)).or (w.disk.lookup? place) := by
  induction docs generalizing w with
  | nil =>
    obtain ⟨rfl⟩ : w = after := congrArg Prod.fst h
    exact ⟨.refl _, fun doc hdoc => absurd hdoc List.not_mem_nil, fun _ => rfl⟩
  | cons doc rest ih =>
    cases hwrite : w.disk.write doc.2.path doc.2.doc.render.toUTF8 with
    | error cause =>
      rw [saveEach, hwrite] at h
      cases h
    | ok disk =>
      obtain ⟨written, hquiet, hdisk, -, hcons⟩ := exists_saveEach_cons hjournal hwrite rest
      obtain ⟨place, hlocate, hplace, rfl⟩ := Disk.write_eq_ok hwrite
      obtain ⟨hkeeps, hpaths, hentries⟩ := ih hquiet (hcons ▸ h)
      rw [hdisk] at hkeeps hentries
      have hthere : after.disk.locate doc.2.path = .ok place :=
        hkeeps.locate_eq_ok ((Disk.keepsDirectories_put hplace _).locate_eq_ok hlocate)
      refine ⟨(Disk.keepsDirectories_put hplace _).trans hkeeps,
        List.forall_mem_cons.2 ⟨⟨place, hthere⟩, hpaths⟩, fun other => ?_⟩
      rw [hentries, lastSaved?_cons, hthere, Disk.lookup?_put_of_not_directory hplace]
      cases lastSaved? after.disk rest other with
      | some last => rfl
      | none =>
        by_cases h : other = place
        · simp [h, Except.toOption, LoadedDoc.entry]
        · simp [h, Ne.symm h, Except.toOption]

theorem lastSaved?_concat {d : Disk} {docs : List (String × LoadedDoc)} {doc : String × LoadedDoc}
    {place : Location} (hlocate : d.locate doc.2.path = .ok place) :
    lastSaved? d (docs ++ [doc]) place = some doc := by
  simp [lastSaved?, hlocate, Except.toOption]

/-- The document that was saved last is found where it was saved. -/
theorem find_of_saveEach_concat {w after : Workspace} (hjournal : w.journal = none)
    {docs : List (String × LoadedDoc)} {doc : String × LoadedDoc}
    (h : saveEach w (docs ++ [doc]) = (after, .ok ())) :
    after.disk.find doc.2.path = .ok doc.2.entry := by
  obtain ⟨-, hpaths, hentries⟩ := saveEach_eq_ok hjournal h
  obtain ⟨place, hlocate⟩ := hpaths doc (List.mem_append_right docs (List.mem_singleton_self doc))
  have hentry : after.disk.lookup? place = some doc.2.entry := by
    rw [hentries, lastSaved?_concat hlocate]
    rfl
  simp only [Disk.find, hlocate, bind, Except.bind, hentry]

/-- When saving has come past a document that is held, its file holds it. -/
theorem find_of_saved {store : DocStore} {name : String} {loaded found : LoadedDoc}
    (hloaded : store.docs[name]? = some loaded) {w after : Workspace} (hjournal : w.journal = none)
    {docs : List (String × LoadedDoc)} (hfront : docs ++ [(name, found)] <+: store.docs.toList)
    (hsave : saveEach w (docs ++ [(name, found)]) = (after, .ok ())) :
    after.disk.find loaded.path = .ok loaded.entry := by
  have hmem := hfront.subset (List.mem_append_right docs (List.mem_singleton_self (name, found)))
  have hfound := Std.ExtTreeMap.mem_toList_iff_getElem?_eq_some.1 hmem
  obtain rfl := Option.some.inj (hfound.symm.trans hloaded)
  have hfind := find_of_saveEach_concat hjournal hsave
  exact hfind

/-! ## Reading what was saved -/

theorem read_eq_of_find_eq {d d' : Disk} {path : String} (h : d'.find path = d.find path) :
    read d' path = read d path := by
  simp only [read, Disk.readText, Disk.read, h]

theorem read_eq_ok_iff {d : Disk} {path : String} {doc : TypeDoc} :
    read d path = .ok doc ↔ ∃ place content text, d.locate path = .ok place ∧
      d.lookup? place = some (.file content) ∧ String.fromUTF8? content = some text ∧
      TypeDoc.parse text = .ok doc := by
  simp only [read, Disk.readText, Disk.read, Disk.find]
  cases hlocate : d.locate path with
  | error cause => simp [bind, Except.bind]
  | ok place =>
    rcases hlookup : d.lookup? place with _ | ⟨_ | content⟩
    · simp [bind, Except.bind, hlookup]
    · simp [bind, Except.bind, hlookup]
    · cases htext : String.fromUTF8? content with
      | none => simp [bind, Except.bind, hlookup, htext]
      | some text =>
        cases hparse : TypeDoc.parse text <;>
          simp [bind, Except.bind, hlookup, htext, hparse]

theorem fromUTF8?_toUTF8 (s : String) : String.fromUTF8? s.toUTF8 = some s := by
  simp only [String.fromUTF8?, String.toUTF8_eq_toByteArray, s.isValidUTF8, dif_pos]
  rfl

theorem isFile_of_read {d : Disk} {path : String} {doc : TypeDoc} (h : read d path = .ok doc) :
    d.isFile path = true := by
  obtain ⟨place, content, _, hlocate, hlookup, -⟩ := read_eq_ok_iff.1 h
  exact Disk.isFile_iff.2 ⟨place, content, hlocate, hlookup⟩

/-- Two paths to one place lead to the same documentation. -/
theorem read_of_locate_eq {d : Disk} {path other : String} {place : Location}
    (hpath : d.locate path = .ok place) (hother : d.locate other = .ok place) {doc : TypeDoc}
    (hread : read d path = .ok doc) : read d other = .ok doc := by
  obtain ⟨found, content, text, hfound, hrest⟩ := read_eq_ok_iff.1 hread
  obtain rfl := Except.ok.inj (hpath.symm.trans hfound)
  exact read_eq_ok_iff.2 ⟨place, content, text, hother, hrest⟩

/-- A settled document is read where it was written. -/
theorem read_of_entry {d : Disk} {path : String} {place : Location} {loaded : LoadedDoc}
    (hlocate : d.locate path = .ok place) (hentry : d.lookup? place = some loaded.entry)
    (hsettled : loaded.doc.IsSettled) : read d path = .ok loaded.doc :=
  read_eq_ok_iff.2 ⟨place, _, loaded.doc.render, hlocate, hentry, fromUTF8?_toUTF8 _,
    hsettled.parse_render⟩

end DocStore

end ApiDocs
