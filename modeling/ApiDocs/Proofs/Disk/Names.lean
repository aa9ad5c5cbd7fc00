import ApiDocs.Disk.Path

/-!
# Names of paths

A text without a slash is one name of a path, and a path that is followed from another one on has
the names of both.
-/

namespace ApiDocs

namespace Text

theorem pieces_eq_splitOnP (isMark : Char → Bool) (cs : List Char) :
    pieces isMark cs = cs.splitOnP isMark := by
  induction cs with
  | nil => simp [pieces]
  | cons c rest ih =>
    rw [pieces, List.splitOnP_cons_eq_if_modifyHead, ih]
    split
    · rfl
    · cases hpieces : rest.splitOnP isMark with
      | nil => exact absurd hpieces (List.splitOnP_ne_nil isMark rest)
      | cons piece others => rfl

end Text

namespace Path

theorem names_of_unslashed {name : String} (h : '/' ∉ name.toList) :
    names name = if name = "" then [] else [name] := by
  have hpieces : Text.pieces (· = '/') name.toList = [name.toList] := by
    rw [Text.pieces_eq_splitOnP]
    refine List.splitOnP_eq_singleton fun c hc => ?_
    have hne : c ≠ '/' := fun heq => h (heq ▸ hc)
    simpa using hne
  rw [names, hpieces]
  by_cases hempty : name = "" <;> simp [hempty]

theorem names_append (front back : String) :
    names (front ++ "/" ++ back) = names front ++ names back := by
  have htext : (front ++ "/" ++ back).toList = front.toList ++ '/' :: back.toList := by simp
  simp only [names, htext, Text.pieces_eq_splitOnP]
  rw [List.splitOnP_append_cons _ _ (by simp), List.filter_append, List.map_append]

theorem names_join {base path : String} (h : isAbsolute path = false) :
    names (join base path) = names base ++ names path := by
  simp only [join, h, Bool.false_eq_true, if_false]
  split
  · next hbare =>
    rcases hbare with rfl | hslash
    · simp [names, Text.pieces]
    · -- the slash at the end of `base` has an empty name behind it
      obtain ⟨front, hfront⟩ := List.getLast?_eq_some_iff.1 (of_decide_eq_true hslash)
      have hbase : base = String.ofList front ++ "/" ++ "" := by
        rw [← String.toList_inj]
        simp [hfront]
      rw [hbase, names_append, String.append_empty, names_append]
      simp [names, Text.pieces]
  · exact names_append base path

theorem isAbsolute_of_unslashed {name : String} (h : '/' ∉ name.toList) :
    isAbsolute name = false := by
  rw [isAbsolute, decide_eq_false_iff_not]
  exact fun hhead => h (List.mem_of_head? hhead)

theorem isAbsolute_append {base : String} (h : base ≠ "") (back : String) :
    isAbsolute (base ++ back) = isAbsolute base := by
  obtain ⟨c, rest, hbase⟩ := List.exists_cons_of_ne_nil (mt String.toList_eq_nil_iff.1 h)
  simp [isAbsolute, hbase]

theorem isAbsolute_join {base path : String} (h : isAbsolute path = false) :
    isAbsolute (join base path) = isAbsolute base := by
  simp only [join, h, Bool.false_eq_true, if_false]
  by_cases hempty : base = ""
  · rw [if_pos (.inl hempty), hempty, String.empty_append, h]
    rfl
  · split
    · exact isAbsolute_append hempty path
    · rw [String.append_assoc, isAbsolute_append hempty]

end Path

end ApiDocs
