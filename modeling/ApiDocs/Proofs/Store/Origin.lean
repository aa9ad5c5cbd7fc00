import ApiDocs.Proofs.Disk.Names
import ApiDocs.Proofs.Session.Serving
import ApiDocs.Proofs.Store.InOrder

/-!
# Where documentation comes from

A store holds documentation under full names, and finds its files by namespace and name. Neither
tells the other: two types of one full name may have different files, and then all of them are given
what was loaded for the first; and two full names may come to one file, but only if a namespace or a
name is more than one step of a path.
-/

namespace ApiDocs

namespace ApiType

/-- The namespace and the name are one name each in the path of the file. -/
structure IsPlain (t : ApiType) : Prop where
  nameSpace : '/' ∉ t.nameSpace.toList
  name : '/' ∉ t.name.toList
  noStep : Path.isStep t.nameSpace = false

instance (t : ApiType) : Decidable t.IsPlain :=
  decidable_of_iff ('/' ∉ t.nameSpace.toList ∧ '/' ∉ t.name.toList ∧
    Path.isStep t.nameSpace = false)
    ⟨fun ⟨hspace, hname, hstep⟩ => ⟨hspace, hname, hstep⟩,
      fun ⟨hspace, hname, hstep⟩ => ⟨hspace, hname, hstep⟩⟩

def fileNames (t : ApiType) : List String :=
  (if t.nameSpace = "" then [] else [t.nameSpace]) ++ [t.name ++ ".xml"]

theorem fullName_congr {t other : ApiType} (hspace : other.nameSpace = t.nameSpace)
    (hname : other.name = t.name) : other.fullName = t.fullName := by
  rw [fullName, fullName, hspace, hname]

theorem eq_of_append_dot {front back front' back' : List Char} (h : '.' ∉ back) (h' : '.' ∉ back')
    (heq : front ++ '.' :: back = front' ++ '.' :: back') : front = front' ∧ back = back' := by
  rcases List.append_eq_append_iff.1 heq with ⟨rest, rfl, hrest⟩ | ⟨rest, rfl, hrest⟩
  · cases rest with
    | nil => simpa using hrest
    | cons c rest =>
      obtain ⟨-, rfl⟩ := List.cons.inj hrest
      simp at h
  · cases rest with
    | nil => simpa [eq_comm] using hrest
    | cons c rest =>
      obtain ⟨-, rfl⟩ := List.cons.inj hrest
      simp at h'

theorem eq_of_fullName_eq {t other : ApiType} (hdot : '.' ∉ t.name.toList)
    (hdot' : '.' ∉ other.name.toList) (h : other.fullName = t.fullName) :
    other.nameSpace = t.nameSpace ∧ other.name = t.name := by
  have htext := congrArg String.toList h
  simp only [fullName] at htext
  by_cases hglobal : t.nameSpace = "" <;> by_cases hglobal' : other.nameSpace = ""
  · simp only [hglobal, hglobal', if_true, String.toList_inj] at htext
    exact ⟨hglobal'.trans hglobal.symm, htext⟩
  · simp only [hglobal, hglobal', if_true, if_false] at htext
    simp [← htext] at hdot
  · simp only [hglobal, hglobal', if_true, if_false] at htext
    simp [htext] at hdot'
  · simp only [hglobal, hglobal', if_false, String.toList_append, List.append_assoc] at htext
    obtain ⟨hspace, hname⟩ := eq_of_append_dot hdot' hdot htext
    exact ⟨String.toList_inj.1 hspace, String.toList_inj.1 hname⟩

theorem eq_of_fileNames_eq {t other : ApiType} (h : other.fileNames = t.fileNames) :
    other.nameSpace = t.nameSpace ∧ other.name = t.name := by
  obtain ⟨hspace, hfile⟩ := List.append_inj' h rfl
  refine ⟨?_, (String.append_left_inj ".xml").1 (List.singleton_inj.1 hfile)⟩
  by_cases hglobal : t.nameSpace = "" <;> by_cases hglobal' : other.nameSpace = ""
  · rw [hglobal, hglobal']
  · simp [hglobal, hglobal'] at hspace
  · simp [hglobal, hglobal'] at hspace
  · simpa [hglobal, hglobal'] using hspace

theorem isStep_append_xml (name : String) : Path.isStep (name ++ ".xml") = false := by
  have hlong : (name ++ ".xml").length = name.length + 4 := String.length_append ..
  have hne : ∀ step : String, step.length < 4 → name ++ ".xml" ≠ step := by
    rintro step hshort rfl
    omega
  simp [Path.isStep, hne "." (by decide), hne ".." (by decide)]

theorem IsPlain.isStep_eq_false {t : ApiType} (h : t.IsPlain) {name : String}
    (hname : name ∈ t.fileNames) : Path.isStep name = false := by
  rcases List.mem_append.1 hname with hspace | hfile
  · split at hspace
    · cases hspace
    · exact List.mem_singleton.1 hspace ▸ h.noStep
  · exact List.mem_singleton.1 hfile ▸ isStep_append_xml t.name

end ApiType

namespace DocStore

variable {s : DocStore} {d : Disk} {t other : ApiType} {name : String} {loaded : LoadedDoc}

/-! ## Files of plain types -/

theorem names_path (h : t.IsPlain) :
    Path.names (s.path t) = Path.names s.root ++ t.fileNames := by
  have hfile : '/' ∉ (t.name ++ ".xml").toList := by simpa using h.name
  rw [path, Path.names_join (Path.isAbsolute_of_unslashed hfile),
    Path.names_join (Path.isAbsolute_of_unslashed h.nameSpace),
    Path.names_of_unslashed h.nameSpace, Path.names_of_unslashed hfile, List.append_assoc,
    ApiType.fileNames]
  simp

theorem start_path (h : t.IsPlain) : d.start (s.path t) = d.start s.root := by
  have hfile : '/' ∉ (t.name ++ ".xml").toList := by simpa using h.name
  rw [Disk.start, path, Path.isAbsolute_join (Path.isAbsolute_of_unslashed hfile),
    Path.isAbsolute_join (Path.isAbsolute_of_unslashed h.nameSpace), Disk.start]

theorem eq_of_locate_path (h : t.IsPlain) {place : Location}
    (hlocate : d.locate (s.path t) = .ok place) :
    place = t.fileNames.reverse ++ (Path.names s.root).foldl Disk.towards (d.start s.root) := by
  rw [Disk.eq_foldl_of_locate hlocate, start_path h, names_path h, List.foldl_append,
    Disk.foldl_towards fun name hname => h.isStep_eq_false hname]

/-- Plain types have files of their own, and each of these has one path. -/
theorem path_ne (h : t.IsPlain) (h' : other.IsPlain) (hne : t.fullName ≠ other.fullName) :
    s.path t ≠ s.path other ∧ ∀ d : Disk, ∀ place, d.locate (s.path t) = .ok place →
      d.locate (s.path other) ≠ .ok place := by
  have hnames : t.fileNames ≠ other.fileNames := by
    intro heq
    obtain ⟨hspace, hname⟩ := ApiType.eq_of_fileNames_eq heq
    exact hne (ApiType.fullName_congr hspace hname)
  constructor
  · intro heq
    have hpath := congrArg Path.names heq
    rw [names_path h, names_path h'] at hpath
    exact hnames (List.append_cancel_left hpath)
  · intro d place hlocate hlocate'
    have hplace := (eq_of_locate_path h hlocate).symm.trans (eq_of_locate_path h' hlocate')
    exact hnames (List.reverse_inj.1 (List.append_cancel_right hplace))

/-! ## Asking for types -/

/-- The store after it has been asked for types in order. -/
def asked (s : DocStore) (d : Disk) (types : List ApiType) : DocStore :=
  types.foldl (fun s t => (s.get d t).2.1) s

/-- What is loaded under a full name when a type is asked for. -/
def loadAs? (s : DocStore) (d : Disk) (name : String) (t : ApiType) : Option LoadedDoc :=
  if t.fullName = name then s.load? d t else none

theorem loadAs?_eq_some_iff :
    s.loadAs? d name t = some loaded ↔
      t.fullName = name ∧ loaded.path = s.path t ∧ read d (s.path t) = .ok loaded.doc := by
  unfold loadAs?
  split
  · next hname => simp [hname, Session.load?_eq_some_iff]
  · next hname => simp [hname]

/-- What is held stays, and something may be loaded under the full name of the type. What is held
then is what the type is given. -/
theorem get_spec (s : DocStore) (d : Disk) (t : ApiType) :
    (s.get d t).2.1.root = s.root ∧
      (∀ name : String, (s.get d t).2.1.docs[name]? = s.docs[name]?.or (s.loadAs? d name t)) ∧
      (s.get d t).2.2 = ((s.get d t).2.1.docs[t.fullName]?).map (·.doc) := by
  cases hloaded : s.docs[t.fullName]? with
  | some loaded =>
    rw [get_of_loaded hloaded]
    refine ⟨rfl, fun name => ?_, by rw [hloaded]; rfl⟩
    by_cases hname : t.fullName = name
    · rw [← hname, hloaded, Option.some_or]
    · rw [loadAs?, if_neg hname, Option.or_none]
  | none =>
    cases hread : read d (s.path t) with
    | ok doc =>
      rw [get_of_read hloaded hread]
      refine ⟨rfl, fun name => ?_, by simp⟩
      by_cases hname : t.fullName = name
      · simp [loadAs?, load?, ← hname, hloaded, hread, Except.toOption]
      · simp [loadAs?, hname, Std.ExtTreeMap.getElem?_insert]
    | error cause =>
      have hrefused : ∀ doc, read d (s.path t) ≠ .ok doc := by simp [hread]
      obtain ⟨notices, hget⟩ := get_of_read_ne hloaded hrefused
      rw [hget]
      refine ⟨rfl, fun name => ?_, by rw [hloaded]; rfl⟩
      simp [loadAs?, load?, hread, Except.toOption]

theorem asked_cons (s : DocStore) (d : Disk) (t : ApiType) (rest : List ApiType) :
    s.asked d (t :: rest) = (s.get d t).2.1.asked d rest := rfl

theorem loadAs?_congr {s' : DocStore} (h : s'.root = s.root) : s'.loadAs? = s.loadAs? := by
  funext d name t
  simp only [loadAs?, load?, path, h]

theorem docs_asked (s : DocStore) (d : Disk) (types : List ApiType) (name : String) :
    (s.asked d types).docs[name]? = s.docs[name]?.or (types.findSome? (s.loadAs? d name)) := by
  induction types generalizing s with
  | nil => simp [asked]
  | cons t rest ih =>
    obtain ⟨hroot, hdocs, -⟩ := s.get_spec d t
    rw [asked_cons, ih, hdocs, loadAs?_congr hroot, Option.or_assoc, List.findSome?_cons]
    cases s.loadAs? d name t <;> rfl

/-- Documentation is held that was loaded for the type `first`: of the types of its full name that
were asked for, the first with a file that can be read. -/
structure LoadedFor (root : String) (d : Disk) (types : List ApiType) (first : ApiType)
    (loaded : LoadedDoc) : Prop where
  held : (asked { root } d types).docs[first.fullName]? = some loaded
  path : loaded.path = DocStore.path { root } first
  read : DocStore.read d (DocStore.path { root } first) = .ok loaded.doc
  before : ∃ before after, types = before ++ first :: after ∧
    ∀ other ∈ before, other.fullName = first.fullName →
      ∀ doc, DocStore.read d (DocStore.path { root } other) ≠ .ok doc

theorem exists_loadedFor {root : String} {types : List ApiType}
    (h : (asked { root } d types).docs[name]? = some loaded) :
    ∃ first, first.fullName = name ∧ LoadedFor root d types first loaded := by
  have hempty : ({ root } : DocStore).docs[name]? = none := by simp
  have hheld := h
  rw [docs_asked, hempty, Option.none_or] at h
  obtain ⟨before, first, after, rfl, hfirst, hbefore⟩ := List.findSome?_eq_some_iff.1 h
  obtain ⟨rfl, hpath, hread⟩ := loadAs?_eq_some_iff.1 hfirst
  refine ⟨first, rfl, hheld, hpath, hread, before, after, rfl,
    fun other hother hname doc hdoc => ?_⟩
  have hnone := hbefore other hother
  have hload : loadAs? { root } d first.fullName other = some ⟨_, doc⟩ :=
    loadAs?_eq_some_iff.2 ⟨hname, rfl, hdoc⟩
  rw [hnone] at hload
  cases hload

theorem LoadedFor.mem {root : String} {types : List ApiType}
    (h : LoadedFor root d types t loaded) : t ∈ types := by
  obtain ⟨before, after, hsplit, -⟩ := h.before
  simp [hsplit]

/-- Documentation of plain types is in files of its own. -/
theorem separate_asked {root : String} {types : List ApiType} (h : ∀ t ∈ types, t.IsPlain)
    (d' : Disk) : (asked { root } d types).Separate d' := by
  refine separate_of_locate_ne fun name other loaded found hloaded hfound hne place => ?_
  obtain ⟨first, rfl, hfirst⟩ := exists_loadedFor hloaded
  obtain ⟨second, rfl, hsecond⟩ := exists_loadedFor hfound
  rw [hfirst.path, hsecond.path]
  exact (path_ne (h first hfirst.mem) (h second hsecond.mem) hne).2 d' place

theorem asked_concat (s : DocStore) (d : Disk) (types : List ApiType) (t : ApiType) :
    s.asked d (types ++ [t]) = ((s.asked d types).get d t).2.1 := by
  rw [asked, List.foldl_append]
  rfl

/-- What `t` is given after the `types` was loaded for the type `first`. -/
structure GivenFrom (root : String) (d : Disk) (types : List ApiType) (t first : ApiType)
    (loaded : LoadedDoc) : Prop where
  fullName : first.fullName = t.fullName
  loadedFor : LoadedFor root d (types ++ [t]) first loaded
  /-- When saving has come past it, it is in the file that it was loaded from. -/
  saved : ∀ (w after : Workspace) (docs : List (String × LoadedDoc)) (found : LoadedDoc),
    w.journal = none →
    docs ++ [(t.fullName, found)] <+: (asked { root } d (types ++ [t])).docs.toList →
    saveEach w (docs ++ [(t.fullName, found)]) = (after, .ok ()) →
    after.disk.find loaded.path = .ok (.file loaded.doc.render.toUTF8)
  /-- That is the file of `t`, if the full name can be told apart in one way only. -/
  path : '.' ∉ t.name.toList →
    (∀ other ∈ types, other.fullName = t.fullName → '.' ∉ other.name.toList) →
    loaded.path = DocStore.path { root } t

theorem exists_givenFrom {root : String} {types : List ApiType} {doc : TypeDoc}
    (h : ((asked { root } d types).get d t).2.2 = some doc) :
    ∃ first loaded, loaded.doc = doc ∧ GivenFrom root d types t first loaded := by
  obtain ⟨-, -, hgiven⟩ := (asked { root } d types).get_spec d t
  rw [h, ← asked_concat] at hgiven
  obtain ⟨loaded, hheld, hdoc⟩ := Option.map_eq_some_iff.1 hgiven.symm
  obtain ⟨first, hname, hfirst⟩ := exists_loadedFor hheld
  refine ⟨first, loaded, hdoc, hname, hfirst,
    fun w after docs found hjournal hfront hsave => find_of_saved hheld hjournal hfront hsave,
    fun hdot hdots => ?_⟩
  have hdot' : '.' ∉ first.name.toList := by
    rcases List.mem_append.1 hfirst.mem with hasked | hlast
    · exact hdots first hasked hname
    · rwa [List.mem_singleton.1 hlast]
  obtain ⟨hspace, hfile⟩ := ApiType.eq_of_fullName_eq hdot hdot' hname
  rw [hfirst.path, DocStore.path, DocStore.path, hspace, hfile]

/-- A type is given what was loaded for the first type of its full name, as is everything that is
held, and plain types share no file. -/
theorem givenFrom_first (root : String) (d : Disk) (types : List ApiType) :
    (∀ t doc, ((asked { root } d types).get d t).2.2 = some doc →
      ∃ first loaded, loaded.doc = doc ∧ GivenFrom root d types t first loaded) ∧
    (∀ (name : String) (loaded : LoadedDoc), (asked { root } d types).docs[name]? = some loaded →
      ∃ first, first.fullName = name ∧ LoadedFor root d types first loaded) ∧
    ∀ first second loaded found, first.fullName ≠ second.fullName →
      LoadedFor root d types first loaded → LoadedFor root d types second found →
      first.IsPlain → second.IsPlain →
      loaded.path ≠ found.path ∧ ∀ d' : Disk, ∀ place,
        d'.locate loaded.path = .ok place → d'.locate found.path ≠ .ok place := by
  refine ⟨fun t doc h => exists_givenFrom h, fun name loaded h => exists_loadedFor h,
    fun first second loaded found hne hfirst hsecond hplain hplain' => ?_⟩
  rw [hfirst.path, hsecond.path]
  exact path_ne hplain hplain' hne

/-- Two types of one full name have files, and a third one has a name of its own. -/
theorem givenFrom_first_of_two :
    let d : Disk := ((({} : Disk).placeFile "en/A.B/C.xml" "<a/>".toUTF8).placeFile
      "en/A/B.C.xml" "<b/>".toUTF8).placeFile "en/A/D.xml" "<d/>".toUTF8
    let first : ApiType := { nameSpace := "A.B", name := "C" }
    let third : ApiType := { nameSpace := "A", name := "D" }
    let t : ApiType := { nameSpace := "A", name := "B.C" }
    let types := [first, third]
    let a : LoadedDoc := ⟨"en/A.B/C.xml", ⟨[], "a", [], []⟩⟩
    let b : LoadedDoc := ⟨"en/A/D.xml", ⟨[], "d", [], []⟩⟩
    ((asked { root := "en" } d types).get d t).2.2 = some a.doc ∧
      (∃ first loaded, loaded.doc = a.doc ∧ GivenFrom "en" d types t first loaded) ∧
      LoadedFor "en" d types first a ∧ LoadedFor "en" d types third b ∧
      first.IsPlain ∧ third.IsPlain ∧ a.path ≠ b.path ∧
      ∀ d' : Disk, ∀ place, d'.locate a.path = .ok place → d'.locate b.path ≠ .ok place := by
  intro d first third t types a b
  have hgiven : ((asked { root := "en" } d types).get d t).2.2 = some a.doc := by decide +kernel
  have ha : LoadedFor "en" d types first a :=
    ⟨by decide +kernel, by decide +kernel, by decide +kernel, [], [third], rfl, by simp⟩
  have hb : LoadedFor "en" d types third b := by
    refine ⟨by decide +kernel, by decide +kernel, by decide +kernel, [first], [], rfl, ?_⟩
    intro other hother hname
    obtain rfl := List.mem_singleton.1 hother
    exact absurd hname (by decide)
  have hplain : first.IsPlain := by decide
  have hplain' : third.IsPlain := by decide
  obtain ⟨hfirst, -, hapart⟩ := givenFrom_first "en" d types
  exact ⟨hgiven, hfirst t a.doc hgiven, ha, hb, hplain, hplain',
    hapart first third a b (by decide) ha hb hplain hplain'⟩

/-- What a type is given need not be from its own file, and a file can be held twice. -/
theorem not_one_file_each :
    let d : Disk := (((({} : Disk).placeFile "en/A.B/C.xml" "<a/>".toUTF8).placeFile
      "en/A/B.C.xml" "<b/>".toUTF8).placeFile "en/A/B/C.xml" "<c/>".toUTF8).placeFile
      "en/D.xml" "<d/>".toUTF8
    let store := asked { root := "en" } d
    let t : ApiType := { nameSpace := "A", name := "B.C" }
    let b : TypeDoc := ⟨[], "b", [], []⟩
    let c : TypeDoc := ⟨[], "c", [], []⟩
    let inside := store [{ nameSpace := "A", name := "B/C" }, { nameSpace := "A/B", name := "C" }]
    let here := store [{ nameSpace := "", name := "D" }, { nameSpace := ".", name := "D" }]
    -- the type has a file, which can be read, but is given that of the other type
    ((store []).get d t).2.2 = some b ∧
      ((store [{ nameSpace := "A.B", name := "C" }]).get d t).2.2 ≠ some b ∧
      ((store [{ nameSpace := "A.B", name := "C" }, t]).docs[t.fullName]?).map (·.path) ≠
        some ((store []).path t) ∧
      -- one path is held twice
      inside.docs["A.B/C"]? = some ⟨"en/A/B/C.xml", c⟩ ∧
      inside.docs["A/B.C"]? = some ⟨"en/A/B/C.xml", c⟩ ∧
      -- two paths of one file are held
      (here.docs["D"]?).bind (d.locate ·.path |>.toOption) = some ["D.xml", "en"] ∧
      (here.docs["..D"]?).bind (d.locate ·.path |>.toOption) = some ["D.xml", "en"] := by
  decide +kernel

end DocStore

end ApiDocs
