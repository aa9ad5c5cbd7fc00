import Mathlib.Data.Finset.Card
import ApiDocs.Proofs.Metadata.Lookup

/-!
# Entering types into a catalog

Types are entered one by one. The first binding that does not pair up ends it, and is the one that
the failure names. If there is none, each type either gets the position of its full name or is told
to be a duplicate, so the notices count the types that are not found.
-/

namespace ApiDocs

/-- The binding, if there is one, has as many events as delegates. -/
def ApiType.isPaired (t : ApiType) : Bool :=
  t.binding.all fun binding => binding.events.length = binding.delegates.length

/-- The full names of the types. -/
def fullNames (types : List ApiType) : Finset String :=
  (types.map (·.fullName)).toFinset

theorem fullNames_cons (t : ApiType) (types : List ApiType) :
    fullNames (t :: types) = insert t.fullName (fullNames types) := by
  rw [fullNames, List.map_cons, List.toFinset_cons, fullNames]

/-- No delegate type and no property is left out where both lists are equally long. -/
theorem EventBinding.groups_unzip {b : EventBinding} (h : b.events.length = b.delegates.length) :
    b.groups.map (·.delegateType) = b.events ∧ b.groups.map (·.property) = b.delegates := by
  rw [groups, ← List.map_uncurry_zip_eq_zipWith, List.map_map, List.map_map]
  exact ⟨List.map_fst_zip h.le, List.map_snd_zip h.ge⟩

namespace Catalog

variable {types : List ApiType} {c : Catalog}

theorem checkBinding_eq_ok_iff {t : ApiType} : checkBinding t = .ok () ↔ t.isPaired = true := by
  rw [checkBinding, ApiType.isPaired]
  cases t.binding with
  | none => simp
  | some binding => by_cases h : binding.events.length = binding.delegates.length <;> simp [h]

theorem checkBinding_eq_error_iff {t : ApiType} {cause : Failure} :
    checkBinding t = .error cause ↔ t.isPaired = false ∧ ∃ binding, t.binding = some binding ∧
      cause = .unpairedBinding t.fullName binding.events.length binding.delegates.length := by
  rw [checkBinding, ApiType.isPaired]
  cases t.binding with
  | none => simp
  | some binding =>
    by_cases h : binding.events.length = binding.delegates.length <;> simp [h, eq_comm]

/-- Entering ends at the first binding that does not pair up. -/
theorem enter_eq_error_iff {cause : Failure} (position : Nat) (table : Std.ExtTreeMap String Nat) :
    (enter position table types).2 = .error cause ↔
      ∃ t, types.find? (! ·.isPaired) = some t ∧ checkBinding t = .error cause := by
  induction types generalizing position table with
  | nil => simp [enter]
  | cons t rest ih =>
    rw [enter]
    cases hbinding : checkBinding t with
    | error found =>
      have hunpaired := (checkBinding_eq_error_iff.1 hbinding).1
      simp [hunpaired, hbinding]
    | ok _ =>
      have hpaired := checkBinding_eq_ok_iff.1 hbinding
      rw [List.find?_cons_of_neg (by simp [hpaired])]
      dsimp only
      split
      · exact ih _ _
      · exact ih _ _

/-- Each type is told to be a duplicate, or has its full name entered. -/
theorem notices_enter (h : ∀ t ∈ types, t.isPaired = true) (position : Nat)
    (table : Std.ExtTreeMap String Nat) :
    (∀ n ∈ (enter position table types).1, ∃ t ∈ types, n = .duplicateType t.fullName) ∧
      (enter position table types).1.length +
        ((fullNames types).filter (! table.contains ·)).card = types.length := by
  induction types generalizing position table with
  | nil => simp [enter, fullNames]
  | cons t rest ih =>
    obtain ⟨ht, hrest⟩ := List.forall_mem_cons.1 h
    rw [fullNames_cons, Finset.filter_insert]
    cases hseen : table.contains t.fullName with
    | true =>
      obtain ⟨htold, hcount⟩ := ih hrest (position + 1) table
      simp only [enter, checkBinding_eq_ok_iff.2 ht, hseen, if_true, Bool.not_true,
        Bool.false_eq_true, if_false, List.length_cons]
      refine ⟨List.forall_mem_cons.2 ⟨⟨t, List.mem_cons_self, rfl⟩, fun n hn => ?_⟩, by omega⟩
      obtain ⟨u, hu, hnotice⟩ := htold n hn
      exact ⟨u, List.mem_cons_of_mem t hu, hnotice⟩
    | false =>
      obtain ⟨htold, hcount⟩ := ih hrest (position + 1) (table.insert t.fullName position)
      -- from here on the name counts as seen
      have hnames : insert t.fullName ((fullNames rest).filter (! table.contains ·)) =
          insert t.fullName ((fullNames rest).filter
            (! (table.insert t.fullName position).contains ·)) := by
        ext name
        by_cases hname : name = t.fullName
        · simp [hname]
        · simp [hname, Ne.symm hname, Std.ExtTreeMap.contains_insert]
      simp only [enter, checkBinding_eq_ok_iff.2 ht, hseen, Bool.false_eq_true, if_false,
        Bool.not_false, if_true, List.length_cons]
      refine ⟨fun n hn => ?_, ?_⟩
      · obtain ⟨u, hu, hnotice⟩ := htold n hn
        exact ⟨u, List.mem_cons_of_mem t hu, hnotice⟩
      · rw [hnames, Finset.card_insert_of_notMem (by simp)]
        omega

/-! ## The catalog of a list of types -/

/-- The catalog holds the types and finds the first of each full name. The notices tell the others,
one by one. -/
structure Indexes (c : Catalog) (types : List ApiType) (notices : List Notice) : Prop where
  holds : c.types.toList = types
  inBounds : ∀ name position, c.position? name = some position → position < c.types.size
  lookup : ∀ name, c.lookup? name = types.find? (·.fullName = name)
  undeclared : ∀ name, c.lookup? name = none ↔ ∀ t ∈ types, t.fullName ≠ name
  told : ∀ n ∈ notices, ∃ t ∈ types, n = .duplicateType t.fullName
  duplicates : notices.length + (fullNames types).card = types.length
  groups : ∀ t ∈ types, ∀ binding, t.binding = some binding →
    binding.groups.map (·.delegateType) = binding.events ∧
      binding.groups.map (·.property) = binding.delegates

theorem indexes_of_ofTypes (h : (ofTypes types).2 = .ok c) : c.Indexes types (ofTypes types).1 := by
  obtain ⟨hchecked, htypes, hpositions⟩ := ofTypes_eq_ok_iff.1 h
  have hpaired : ∀ t ∈ types, t.isPaired = true :=
    fun t ht => checkBinding_eq_ok_iff.1 (hchecked t ht)
  obtain ⟨htold, hcount⟩ := notices_enter hpaired 0 ∅
  have hnotices : (ofTypes types).1 = (enter 0 ∅ types).1 := rfl
  refine ⟨toList_types_of_ofTypes h, fun name position hposition => ?_, lookup?_of_ofTypes h,
    fun name => ?_, hnotices ▸ htold, ?_, fun t ht binding hbinding => ?_⟩
  · rw [hpositions] at hposition
    obtain ⟨hlt, -⟩ := List.findIdx?_eq_some_iff_getElem.1 hposition
    rwa [htypes, List.size_toArray]
  · simp [lookup?_of_ofTypes h]
  · rw [hnotices]
    simpa using hcount
  · have hlengths := hpaired t ht
    rw [ApiType.isPaired, hbinding, Option.all_some, decide_eq_true_eq] at hlengths
    exact EventBinding.groups_unzip hlengths

/-- Types make a catalog if each of their bindings pairs up, and the first that does not is the one
that the failure names. The catalog finds the first type of each full name. -/
theorem ofTypes_sound (types : List ApiType) :
    ((∃ c, (ofTypes types).2 = .ok c) ↔ ∀ t ∈ types, t.isPaired = true) ∧
      (∀ cause, (ofTypes types).2 = .error cause ↔ ∃ t binding,
        types.find? (! ·.isPaired) = some t ∧ t.binding = some binding ∧
          cause = .unpairedBinding t.fullName binding.events.length binding.delegates.length) ∧
      ∀ c, (ofTypes types).2 = .ok c → c.Indexes types (ofTypes types).1 := by
  refine ⟨⟨fun ⟨c, hc⟩ t ht => ?_, fun h => ?_⟩, fun cause => ?_, fun c => indexes_of_ofTypes⟩
  · exact checkBinding_eq_ok_iff.1 ((ofTypes_eq_ok_iff.1 hc).1 t ht)
  · exact exists_ofTypes fun t ht => checkBinding_eq_ok_iff.2 (h t ht)
  · have hfailed : (ofTypes types).2 = .error cause ↔ (enter 0 ∅ types).2 = .error cause := by
      rw [snd_ofTypes]
      cases (enter 0 ∅ types).2 <;> simp [Except.map]
    rw [hfailed, enter_eq_error_iff]
    refine exists_congr fun t => ?_
    rw [checkBinding_eq_error_iff]
    constructor
    · rintro ⟨hfirst, -, binding, hbinding, hcause⟩
      exact ⟨binding, hfirst, hbinding, hcause⟩
    · rintro ⟨binding, hfirst, hbinding, hcause⟩
      exact ⟨hfirst, by simpa using List.find?_some hfirst, binding, hbinding, hcause⟩

/-- Two types have one full name, which is split at different places. -/
theorem ofTypes_sound_splitName :
    let t : ApiType := { nameSpace := "A.B", name := "C", binding := some ⟨["D"], ["d"]⟩ }
    let types : List ApiType := [t, { nameSpace := "A", name := "B.C" }, { name := "D" }]
    ∃ c, (ofTypes types).2 = .ok c ∧ c.Indexes types (ofTypes types).1 ∧
      (ofTypes types).1 = [.duplicateType "A.B.C"] ∧ c.lookup? "A.B.C" = some t := by
  intro t types
  have hpaired : ∀ t ∈ types, t.isPaired = true := by decide
  obtain ⟨c, hc⟩ := (ofTypes_sound types).1.2 hpaired
  have hindexes := (ofTypes_sound types).2.2 c hc
  exact ⟨c, hc, hindexes, by decide +kernel, (hindexes.lookup "A.B.C").trans (by decide)⟩

end Catalog

end ApiDocs
