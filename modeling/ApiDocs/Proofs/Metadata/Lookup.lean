import ApiDocs.Metadata.Catalog

/-!
# What a catalog finds

A list of types makes a catalog if the binding of each of them pairs up, and the catalog then finds
the first type of a full name. Later types of that name are not found: without them, the catalog finds
the same.
-/

namespace ApiDocs

namespace Catalog

variable {types : List ApiType} {c : Catalog}

theorem exists_enter (h : ∀ t ∈ types, checkBinding t = .ok ()) (position : Nat)
    (table : Std.ExtTreeMap String Nat) :
    ∃ result, (enter position table types).2 = .ok result ∧ ∀ name : String, result[name]? =
      table[name]?.or ((types.findIdx? (·.fullName = name)).map (position + ·)) := by
  induction types generalizing position table with
  | nil => exact ⟨table, rfl, fun name => by simp⟩
  | cons t rest ih =>
    obtain ⟨ht, hrest⟩ := List.forall_mem_cons.1 h
    cases hseen : table.contains t.fullName with
    | true =>
      obtain ⟨result, hresult, hfinds⟩ := ih hrest (position + 1) table
      refine ⟨result, by simp only [enter, ht, hseen, if_true, hresult], fun name => ?_⟩
      rw [hfinds, List.findIdx?_cons]
      by_cases hname : t.fullName = name
      · -- the name has a position, which comes first
        have hsome : (table[name]?).isSome := by
          rw [← hname, ← Std.ExtTreeMap.contains_eq_isSome_getElem?, hseen]
        obtain ⟨found, hfound⟩ := Option.isSome_iff_exists.1 hsome
        rw [hfound, Option.some_or, Option.some_or]
      · simp [hname, Function.comp_def, Nat.add_right_comm, Nat.add_assoc]
    | false =>
      obtain ⟨result, hresult, hfinds⟩ := ih hrest (position + 1) (table.insert t.fullName position)
      refine ⟨result, by simp only [enter, ht, hseen, Bool.false_eq_true, if_false, hresult],
        fun name => ?_⟩
      rw [hfinds, List.findIdx?_cons, Std.ExtTreeMap.getElem?_insert]
      by_cases hname : t.fullName = name
      · have hnone : table[name]? = none :=
          Std.ExtTreeMap.getElem?_eq_none_of_contains_eq_false (hname ▸ hseen)
        simp [hname, hnone]
      · simp [hname, Function.comp_def, Nat.add_right_comm, Nat.add_assoc]

theorem checkBinding_of_enter {position : Nat} {table result : Std.ExtTreeMap String Nat}
    (h : (enter position table types).2 = .ok result) : ∀ t ∈ types, checkBinding t = .ok () := by
  induction types generalizing position table with
  | nil => simp
  | cons t rest ih =>
    rw [enter] at h
    cases hbinding : checkBinding t with
    | error cause => simp [hbinding] at h
    | ok _ =>
      simp only [hbinding] at h
      refine List.forall_mem_cons.2 ⟨hbinding, ?_⟩
      split at h
      · exact ih h
      · exact ih h

theorem snd_ofTypes (types : List ApiType) :
    (ofTypes types).2 = (enter 0 ∅ types).2.map fun positions =>
      { types := types.toArray, positions } := rfl

/-- The catalog of a list of types, in which each binding pairs up, has the first position of each
full name. -/
theorem ofTypes_eq_ok_iff :
    (ofTypes types).2 = .ok c ↔ (∀ t ∈ types, checkBinding t = .ok ()) ∧
      c.types = types.toArray ∧ ∀ name, c.position? name = types.findIdx? (·.fullName = name) := by
  constructor
  · intro h
    rw [snd_ofTypes] at h
    cases hresult : (enter 0 ∅ types).2 with
    | error cause => simp [hresult, Except.map] at h
    | ok positions =>
      have hpairs := checkBinding_of_enter hresult
      obtain ⟨result, hentered, hfinds⟩ := exists_enter hpairs 0 ∅
      obtain rfl := Except.ok.inj (hresult.symm.trans hentered)
      simp only [hresult, Except.map, Except.ok.injEq] at h
      subst h
      refine ⟨hpairs, rfl, fun name => ?_⟩
      rw [position?, hfinds]
      simp
  · rintro ⟨hpairs, htypes, hfinds⟩
    obtain ⟨result, hresult, hentered⟩ := exists_enter hpairs 0 ∅
    have hpositions : result = c.positions := by
      refine Std.ExtTreeMap.ext_getElem? fun name => ?_
      have hname := hfinds name
      rw [position?] at hname
      rw [hentered, hname]
      simp
    rw [snd_ofTypes, hresult, hpositions, ← htypes]
    rfl

theorem lookup?_of_ofTypes (h : (ofTypes types).2 = .ok c) (name : String) :
    c.lookup? name = types.find? (·.fullName = name) := by
  obtain ⟨-, htypes, hfinds⟩ := ofTypes_eq_ok_iff.1 h
  rw [lookup?, hfinds, htypes, List.find?_eq_bind_findIdx?_getElem?]
  simp

theorem toList_types_of_ofTypes (h : (ofTypes types).2 = .ok c) : c.types.toList = types := by
  rw [(ofTypes_eq_ok_iff.1 h).2.1]

theorem exists_ofTypes (h : ∀ t ∈ types, checkBinding t = .ok ()) :
    ∃ c, (ofTypes types).2 = .ok c := by
  obtain ⟨result, hresult, -⟩ := exists_enter h 0 ∅
  exact ⟨⟨types.toArray, result⟩, by rw [snd_ofTypes, hresult]; rfl⟩

end Catalog

/-! ## The first type of each full name -/

/-- The types whose full name was not seen, neither before nor among them. -/
def unseenTypes (seen : List String) : List ApiType → List ApiType
  | [] => []
  | t :: rest =>
    if t.fullName ∈ seen then unseenTypes (t.fullName :: seen) rest
    else t :: unseenTypes (t.fullName :: seen) rest

/-- The types whose full name none before them has. -/
def firstTypes (types : List ApiType) : List ApiType :=
  unseenTypes [] types

theorem find?_unseenTypes (seen : List String) (types : List ApiType) (name : String) :
    (unseenTypes seen types).find? (·.fullName = name) =
      if name ∈ seen then none else types.find? (·.fullName = name) := by
  induction types generalizing seen with
  | nil => simp [unseenTypes]
  | cons t rest ih =>
    rw [unseenTypes]
    by_cases hname : t.fullName = name
    · subst hname
      by_cases hseen : t.fullName ∈ seen <;> simp [hseen, ih]
    · by_cases hseen : t.fullName ∈ seen <;> simp [hseen, ih, hname, Ne.symm hname]

theorem unseenTypes_sublist (seen : List String) (types : List ApiType) :
    (unseenTypes seen types).Sublist types := by
  induction types generalizing seen with
  | nil => exact .slnil
  | cons t rest ih =>
    rw [unseenTypes]
    split
    · exact (ih _).cons t
    · exact (ih _).cons_cons t

/-- If a list of types makes a catalog, so do the first types of its full names, and the catalog of
these finds the same. -/
theorem Catalog.exists_ofTypes_firstTypes {types : List ApiType} {c : Catalog}
    (h : (ofTypes types).2 = .ok c) :
    ∃ first, (ofTypes (firstTypes types)).2 = .ok first ∧
      ∀ name, first.lookup? name = c.lookup? name := by
  obtain ⟨hpairs, -, -⟩ := ofTypes_eq_ok_iff.1 h
  have hfirsts : ∀ t ∈ firstTypes types, checkBinding t = .ok () := by
    intro t ht
    exact hpairs t ((unseenTypes_sublist [] types).subset ht)
  obtain ⟨first, hfirst⟩ := exists_ofTypes hfirsts
  refine ⟨first, hfirst, fun name => ?_⟩
  rw [lookup?_of_ofTypes hfirst, lookup?_of_ofTypes h, firstTypes, find?_unseenTypes]
  simp

end ApiDocs
