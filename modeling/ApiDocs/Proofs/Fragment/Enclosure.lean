import ApiDocs.Fragment
import ApiDocs.Proofs.Session.Confinement
import ApiDocs.Proofs.Store.Origin

/-!
# Where fragments are looked for

The file of a fragment is beneath the directory of the library, whatever the type and the symbol are
called: names that could lead elsewhere have no file. Following such a path looks only at the way to
the directory and at places inside it. So on two disks that are the same there, a library gives the
same fragments, and tells the same about them.
-/

namespace ApiDocs

namespace Path

/-- The path begins with the path `root`, and goes on with these names. -/
structure Extends (root path : String) (inner : List String) : Prop where
  front : ∃ back, path = root ++ back
  absolute : isAbsolute path = isAbsolute root
  names : Path.names path = Path.names root ++ inner

theorem extends_refl (root : String) : Extends root root [] :=
  ⟨⟨"", by simp⟩, rfl, by simp⟩

theorem Extends.join {root base path : String} {inner : List String} (h : Extends root base inner)
    (hpath : isAbsolute path = false) :
    Extends root (join base path) (inner ++ Path.names path) := by
  refine ⟨?_, (isAbsolute_join hpath).trans h.absolute, ?_⟩
  · obtain ⟨back, rfl⟩ := h.front
    simp only [Path.join, hpath, Bool.false_eq_true, if_false]
    split
    · exact ⟨back ++ path, String.append_assoc ..⟩
    · exact ⟨back ++ "/" ++ path, by simp only [String.append_assoc]⟩
  · rw [names_join hpath, h.names, List.append_assoc]

theorem leadInward_append_here (depth : Nat) (names : List String) :
    leadInward depth (names ++ ["."]) = leadInward depth names := by
  induction names generalizing depth with
  | nil => simp [leadInward]
  | cons name rest ih => simp only [List.cons_append, leadInward, ih]

end Path

namespace Disk

/-- The disks are the same inside a directory: `root` leads to it on both or on neither, and every
place from there on holds the same. -/
structure SameInside (root : String) (d d' : Disk) : Prop where
  workingDirectory : d'.workingDirectory = d.workingDirectory
  reached : d'.isDirectory root = d.isDirectory root
  inside : ∀ place, d.resolve root <:+ place → d'.lookup? place = d.lookup? place

variable {d d' : Disk} {root path : String} {directory place : Location} {entry : Entry}
  {names : List String}

/-! ## Paths that lead somewhere -/

/-- The names to follow along a path: a slash at the end asks to stay in the last directory. -/
def steps (path : String) : List String :=
  Path.names path ++ if Path.endsInSlash path then ["."] else []

theorem locate_eq_ok_iff_walk :
    d.locate path = .ok place ↔
      checkPath path = .ok () ∧ d.walk (d.start path) (steps path) = .ok place := by
  rw [locate, steps]
  cases checkPath path <;> simp [bind, Except.bind]

theorem find_eq_ok_iff :
    d.find path = .ok entry ↔
      ∃ place, d.locate path = .ok place ∧ d.lookup? place = some entry := by
  rw [find]
  cases hlocate : d.locate path with
  | error cause => simp [bind, Except.bind]
  | ok place =>
    simp only [bind, Except.bind, Except.ok.injEq, exists_eq_left']
    cases d.lookup? place <;> simp

theorem isDirectory_iff : d.isDirectory path = true ↔ d.find path = .ok .directory := by
  rw [isDirectory]
  rcases d.find path with _ | ⟨_ | content⟩ <;> simp

theorem checkPath_eq_ok_iff :
    checkPath path = .ok () ↔
      path.toList.contains (Char.ofNat 0) = false ∧ path ≠ "" ∧ path.utf8ByteSize ≤ maxPath := by
  rw [checkPath]
  cases path.toList.contains (Char.ofNat 0) with
  | true => simp
  | false =>
    by_cases hempty : path = "" <;> by_cases hlong : maxPath < path.utf8ByteSize <;>
      simp [hempty, hlong]
    omega

theorem checkPath_of_append {front back : String} (hfront : front ≠ "")
    (h : checkPath (front ++ back) = .ok ()) : checkPath front = .ok () := by
  obtain ⟨hnull, -, hlong⟩ := checkPath_eq_ok_iff.1 h
  rw [String.utf8ByteSize_append] at hlong
  refine checkPath_eq_ok_iff.2 ⟨?_, hfront, by omega⟩
  rw [String.toList_append, List.contains_append, Bool.or_eq_false_iff] at hnull
  exact hnull.1

/-- Names that never lead out of a directory are followed alike where the places inside are the
same. -/
theorem walk_eq_of_inside
    (hsame : ∀ place, directory <:+ place → d'.lookup? place = d.lookup? place)
    (inner : Location) (h : Path.leadInward inner.length names = true) :
    d'.walk (inner ++ directory) names = d.walk (inner ++ directory) names := by
  induction names generalizing inner with
  | nil => rfl
  | cons name rest ih =>
    rw [walk, walk, hsame _ (List.suffix_append inner directory)]
    rw [Path.leadInward] at h
    rcases d.lookup? (inner ++ directory) with _ | ⟨_ | content⟩
    · rfl
    · dsimp only
      by_cases hhere : name = "."
      · rw [if_pos hhere] at h
        rw [if_pos hhere, if_pos hhere, ih inner h]
      · rw [if_neg hhere] at h
        rw [if_neg hhere, if_neg hhere]
        by_cases hup : name = ".."
        · rw [if_pos hup] at h
          obtain ⟨hdeep, hrest⟩ := Bool.and_eq_true_iff.1 h
          rcases inner with _ | ⟨last, inner⟩
          · simp at hdeep
          · rw [if_pos hup, if_pos hup]
            exact ih inner hrest
        · rw [if_neg hup] at h
          have hdown := ih (name :: inner) h
          rw [List.cons_append] at hdown
          rw [if_neg hup, if_neg hup, hdown]
    · rfl

/-- A name is followed from a directory only. -/
theorem lookup?_of_walk {start target : Location} (hne : names ≠ [])
    (h : d.walk start names = .ok target) : d.lookup? start = some .directory := by
  obtain ⟨name, rest, rfl⟩ := List.exists_cons_of_ne_nil hne
  rw [walk] at h
  rcases hstart : d.lookup? start with _ | ⟨_ | content⟩
  · simp [hstart] at h
  · rfl
  · simp [hstart] at h

theorem walk_names_of_locate (h : d.locate path = .ok place) :
    d.walk (d.start path) (Path.names path) = .ok place := by
  obtain ⟨-, hwalk⟩ := locate_eq_ok_iff_walk.1 h
  rw [steps, walk_append] at hwalk
  obtain ⟨last, hlast, hwalk⟩ := Xml.Draft.exists_of_bind_eq_ok hwalk
  -- to stay in the last directory leads nowhere else
  have hplace : place = last := by
    rw [eq_foldl_of_walk hwalk]
    split <;> rfl
  rw [hlast, hplace]

/-! ## The same inside -/

namespace SameInside

theorem start_eq (h : SameInside root d d') (path : String) : d'.start path = d.start path := by
  rw [start, start, h.workingDirectory]

theorem resolve_eq (h : SameInside root d d') (path : String) :
    d'.resolve path = d.resolve path := by
  rw [resolve, resolve, h.start_eq]

theorem symm (h : SameInside root d d') : SameInside root d' d := by
  refine ⟨h.workingDirectory.symm, h.reached.symm, fun place hplace => ?_⟩
  rw [h.resolve_eq] at hplace
  exact (h.inside place hplace).symm

/-- The way to the directory is there on both. -/
theorem walk_names (h : SameInside root d d') (hcheck : root ≠ "" → checkPath root = .ok ())
    (hwalk : d.walk (d.start root) (Path.names root) = .ok directory)
    (hdirectory : d.lookup? directory = some .directory) :
    d'.walk (d'.start root) (Path.names root) = .ok directory := by
  by_cases hroot : root = ""
  · subst hroot
    rw [h.start_eq]
    exact hwalk
  · have hsteps : d.walk (d.start root) (steps root) = .ok directory := by
      rw [steps, walk_append, hwalk]
      cases Path.endsInSlash root <;> simp [Except.bind, walk, hdirectory]
    have hlocate := locate_eq_ok_iff_walk.2 ⟨hcheck hroot, hsteps⟩
    have hreached : d'.isDirectory root = true :=
      h.reached.trans (isDirectory_iff.2 (find_eq_ok_iff.2 ⟨directory, hlocate, hdirectory⟩))
    obtain ⟨found, hfound, -⟩ := find_eq_ok_iff.1 (isDirectory_iff.1 hreached)
    have hsame : found = directory := by
      rw [eq_resolve_of_locate hfound, eq_resolve_of_locate hlocate, h.resolve_eq]
    exact hsame ▸ walk_names_of_locate hfound

/-- A path into the directory leads to the same on both. -/
theorem find_eq_ok (h : SameInside root d d') (hpath : Path.Extends root path names)
    (hinward : Path.leadInward 0 names = true) (hfind : d.find path = .ok entry) :
    d'.find path = .ok entry := by
  obtain ⟨place, hlocate, hentry⟩ := find_eq_ok_iff.1 hfind
  obtain ⟨hcheck, hwalk⟩ := locate_eq_ok_iff_walk.1 hlocate
  have hstart : d.start path = d.start root := by rw [start, start, hpath.absolute]
  -- the names inside, and the slash at the end
  obtain ⟨inner, hsteps, hne, hinner⟩ : ∃ inner, steps path = Path.names root ++ inner ∧
      inner ≠ [] ∧ Path.leadInward 0 inner = true := by
    refine ⟨names ++ if Path.endsInSlash path then ["."] else [], ?_, ?_, ?_⟩
    · rw [steps, hpath.names, List.append_assoc]
    · rintro hnil
      rw [(List.append_eq_nil_iff.1 hnil).1] at hinward
      cases hinward
    · split
      · rw [Path.leadInward_append_here, hinward]
      · rw [List.append_nil, hinward]
  rw [hsteps, hstart, walk_append] at hwalk
  obtain ⟨directory, hroot, hinside⟩ := Xml.Draft.exists_of_bind_eq_ok hwalk
  have hresolve : d.resolve root = directory := (eq_foldl_of_walk hroot).symm
  have hcheckRoot : root ≠ "" → checkPath root = .ok () := by
    intro hempty
    obtain ⟨back, rfl⟩ := hpath.front
    exact checkPath_of_append hempty hcheck
  have hroot' := h.walk_names hcheckRoot hroot (lookup?_of_walk hne hinside)
  have hinside' : d'.walk directory inner = .ok place := by
    have hwalks := walk_eq_of_inside (hresolve ▸ h.inside) [] hinner
    rwa [List.nil_append, hinside] at hwalks
  have hbeneath : directory <:+ place := by
    have hplace := isBeneath_foldl_towards [] hinner directory
    rw [List.nil_append, ← eq_foldl_of_walk hinside] at hplace
    exact hplace.1
  refine find_eq_ok_iff.2 ⟨place, locate_eq_ok_iff_walk.2 ⟨hcheck, ?_⟩, ?_⟩
  · have hstart' : d'.start path = d'.start root := by rw [start, start, hpath.absolute]
    rw [hsteps, hstart', walk_append, hroot']
    exact hinside'
  · rw [h.inside place (hresolve ▸ hbeneath), hentry]

end SameInside

end Disk

/-! ## Fragments -/

namespace FragmentLibrary

variable {l : FragmentLibrary} {d d' : Disk} {t : ApiType} {symbol path : String}

/-- A fragment is in a file of its symbol, in a directory of its type. -/
theorem extends_of_path? (h : l.path? t symbol = some path) :
    Path.Extends l.root path [t.name, symbol ++ ".xml"] ∧
      Path.leadInward 0 [t.name, symbol ++ ".xml"] = true := by
  rw [path?] at h
  split at h
  · next hplain =>
    cases h
    simp only [isPlainName, Bool.and_eq_true, Bool.not_eq_true', decide_eq_true_eq,
      List.contains_eq_mem, decide_eq_false_iff_not] at hplain
    obtain ⟨⟨⟨⟨hname, hslash⟩, -⟩, hup⟩, ⟨⟨-, hsymbol⟩, -⟩, -⟩ := hplain
    have hfile : '/' ∉ (symbol ++ ".xml").toList := by simpa using hsymbol
    have hextends := ((Path.extends_refl l.root).join (Path.isAbsolute_of_unslashed hslash)).join
      (Path.isAbsolute_of_unslashed hfile)
    have hxml := ApiType.isStep_append_xml symbol
    simp only [Path.isStep, Bool.or_eq_false_iff, decide_eq_false_iff_not] at hxml
    refine ⟨?_, ?_⟩
    · simpa [Path.names_of_unslashed hslash, Path.names_of_unslashed hfile, hname] using hextends
    · simp [Path.leadInward, hup, hxml]
  · cases h

/-- What a library gives is told by what its file holds, if it is there. -/
theorem load_congr (h : ∀ path, l.path? t symbol = some path → ∀ entry,
    d'.find path = .ok entry ↔ d.find path = .ok entry) :
    l.load d' t symbol = l.load d t symbol := by
  rw [load, load]
  cases hpath : l.path? t symbol with
  | none => rfl
  | some path =>
    dsimp only
    cases hfind : d.find path with
    | ok entry =>
      have hfind' := (h path hpath entry).2 hfind
      simp only [Disk.isFile, read, Disk.readText, Disk.read, hfind, hfind']
    | error cause =>
      cases hfind' : d'.find path with
      | ok entry => simp [(h path hpath entry).1 hfind'] at hfind
      | error other => simp [Disk.isFile, hfind, hfind']

/-- The file of a fragment is inside the directory of the library, and nothing that is outside shows
in what the library gives and tells. -/
theorem load_of_sameInside (l : FragmentLibrary) {d d' : Disk} (h : Disk.SameInside l.root d d')
    (t : ApiType) (symbol : String) :
    (∀ path ∈ l.path? t symbol, Disk.IsBeneath (d.resolve l.root) (d.resolve path)) ∧
      l.load d' t symbol = l.load d t symbol ∧ l.fragment d' t symbol = l.fragment d t symbol := by
  have hload : l.load d' t symbol = l.load d t symbol := by
    refine load_congr fun path hpath entry => ?_
    obtain ⟨hextends, hinward⟩ := extends_of_path? hpath
    exact ⟨h.symm.find_eq_ok hextends hinward, h.find_eq_ok hextends hinward⟩
  refine ⟨fun path hpath => ?_, hload, by rw [fragment, fragment, hload]⟩
  obtain ⟨hextends, hinward⟩ := extends_of_path? hpath
  have hbeneath := Disk.isBeneath_foldl_towards [] hinward (d.resolve l.root)
  have hresolve : d.resolve path =
      [t.name, symbol ++ ".xml"].foldl Disk.towards (d.resolve l.root) := by
    rw [Disk.resolve, Disk.resolve, Disk.start, Disk.start, hextends.absolute, hextends.names,
      List.foldl_append]
  rwa [hresolve]

/-- A type that is called like a step, and a file of the same name outside. -/
theorem load_of_sameInside_step :
    let d : Disk := (({} : Disk).placeFile "a/b/S.xml" "<r>inside</r>".toUTF8)
    let d' : Disk := d.put ["S.xml", "a"] (.file "<r>outside</r>".toUTF8)
    let l : FragmentLibrary := ⟨"a/b"⟩
    let t : ApiType := { name := "." }
    Disk.SameInside l.root d d' ∧ d'.readText "a/S.xml" ≠ d.readText "a/S.xml" ∧
      l.load d' t "S" = .ok (some ⟨"r", [], [.text "inside"]⟩) ∧
      l.load d' t "S" = l.load d t "S" := by
  intro d d' l t
  have hsame : Disk.SameInside l.root d d' := by
    refine ⟨rfl, by decide +kernel, fun place hplace => ?_⟩
    have hroot : d.resolve l.root = ["b", "a"] := by decide +kernel
    have hne : place ≠ ["S.xml", "a"] := by
      rintro rfl
      rw [hroot] at hplace
      revert hplace
      decide
    rw [Disk.lookup?_put, if_neg fun hput => hne hput.2]
  exact ⟨hsame, by decide +kernel, by decide +kernel, (load_of_sameInside l hsame t "S").2.1⟩

end FragmentLibrary

end ApiDocs
