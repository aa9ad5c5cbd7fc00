import ApiDocs.Xml.Attribute
import ApiDocs.Xml.Printer

/-!
# Written attributes

What the reader finds where attributes were written. Attributes with readable keys are read back
in order, whatever their values are. If more than space follows them, more attributes are read than
were written, and if they are cut off anywhere, fewer are, unless reading fails.
-/

namespace ApiDocs.Xml

open Text

/-- The character belongs to a key that has begun. -/
def isKeyChar (c : Char) : Bool :=
  c ≠ '=' && !isSpace c

/-- The key is read as one key: it is not empty and holds no white space, and an equals sign at
most in front. -/
def isReadableKey (key : String) : Bool :=
  match key.toList with
  | [] => false
  | first :: rest => !isSpace first && rest.all isKeyChar

namespace Attribute

def chars (a : Attribute) : List Char :=
  ' ' :: a.key.toList ++ '=' :: '"' :: a.value.toList.flatMap valueEscape ++ ['"']

theorem toList_render (a : Attribute) : a.render.toList = a.chars := by
  simp [render, chars, escaped]

end Attribute

/-! ## Values -/

theorem isSpace_quote : isSpace '"' = false := by decide

theorem valueEscape_ne_quote (c : Char) : ∀ x ∈ valueEscape c, x ≠ '"' := by
  unfold valueEscape
  split
  · simp
  · simp
  · next hquote =>
    unfold textEscape
    split
    · simp
    · simp
    · simp
    · simpa using hquote

theorem flatMap_valueEscape_ne_quote (value : List Char) :
    ∀ x ∈ value.flatMap valueEscape, x ≠ '"' := by
  intro x hx
  obtain ⟨c, _, hmem⟩ := List.mem_flatMap.1 hx
  exact valueEscape_ne_quote c x hmem

/-- A reference in a value is resolved, and what stands behind it is read on. -/
theorem unescapeFrom_name {name : List Char} (hname : ∀ x ∈ name, x ≠ '&' ∧ x ≠ ';')
    (total position : Nat) (rest : List Char) :
    ∃ stop, unescapeFrom total position ('&' :: name ++ ';' :: rest) =
      (valueReference (position + 1) stop (String.ofList name)).bind fun c =>
        (unescapeFrom total (stop + 1) rest).map (c :: ·) := by
  have hinside : ∀ x ∈ name, (decide (x ≠ '&') && decide (x ≠ ';')) = true := by
    intro x hx
    simpa using hname x hx
  have hdrop : (name ++ ';' :: rest).dropWhile (fun c => c ≠ '&' && c ≠ ';') = ';' :: rest := by
    rw [List.dropWhile_append_of_pos hinside]
    simp
  refine ⟨position + 1 + byteCount name, ?_⟩
  rw [List.cons_append, unescapeFrom]
  simp only
  split
  · next after heq =>
    rw [hdrop, List.cons.injEq] at heq
    rw [List.takeWhile_append_of_pos hinside, ← heq.2]
    simp [bind, Except.bind, Except.map, pure, Except.pure]
  · next hno => exact absurd hdrop (hno rest)

theorem unescapeFrom_reference {name : List Char} {c : Char}
    (hname : ∀ x ∈ name, x ≠ '&' ∧ x ≠ ';')
    (hc : ∀ start stop, valueReference start stop (String.ofList name) = .ok c)
    (total position : Nat) (rest : List Char) :
    ∃ later, unescapeFrom total position ('&' :: name ++ ';' :: rest) =
      (unescapeFrom total later rest).map (c :: ·) := by
  obtain ⟨stop, hread⟩ := unescapeFrom_name hname total position rest
  refine ⟨stop + 1, ?_⟩
  rw [hread, hc]
  rfl

theorem unescapeFrom_valueEscape (total position : Nat) (c : Char) (rest : List Char) :
    ∃ later, unescapeFrom total position (valueEscape c ++ rest) =
      (unescapeFrom total later rest).map (c :: ·) := by
  unfold valueEscape
  split
  · exact unescapeFrom_reference (by simp : ∀ x ∈ "apos".toList, _) (fun _ _ => rfl) ..
  · exact unescapeFrom_reference (by simp : ∀ x ∈ "quot".toList, _) (fun _ _ => rfl) ..
  · unfold textEscape
    split
    · exact unescapeFrom_reference (by simp : ∀ x ∈ "lt".toList, _) (fun _ _ => rfl) ..
    · exact unescapeFrom_reference (by simp : ∀ x ∈ "gt".toList, _) (fun _ _ => rfl) ..
    · exact unescapeFrom_reference (by simp : ∀ x ∈ "amp".toList, _) (fun _ _ => rfl) ..
    · next hamp =>
      refine ⟨position + c.utf8Size, ?_⟩
      rw [List.cons_append, List.nil_append, unescapeFrom.eq_3 _ _ _ _ (by simpa using hamp)]
      rfl

theorem unescapeFrom_escaped (total position : Nat) (value : List Char) :
    unescapeFrom total position (value.flatMap valueEscape) = .ok value := by
  induction value generalizing position with
  | nil => simp [unescapeFrom]
  | cons c value ih =>
    obtain ⟨later, hread⟩ :=
      unescapeFrom_valueEscape total position c (value.flatMap valueEscape)
    rw [List.flatMap_cons, hread, ih]
    rfl

theorem unescape_escaped (value : List Char) :
    unescape (value.flatMap valueEscape) = .ok (String.ofList value) := by
  rw [unescape, unescapeFrom_escaped]
  rfl

/-! ## Keys -/

theorem isReadableKey_iff {key : String} :
    isReadableKey key = true ↔ ∃ first rest, key.toList = first :: rest ∧ isSpace first = false ∧
      ∀ c ∈ rest, isKeyChar c = true := by
  unfold isReadableKey
  split
  · next hnil => simp [hnil]
  · next first rest hcons =>
    simp only [hcons, Bool.and_eq_true, Bool.not_eq_true', List.all_eq_true]
    constructor
    · rintro ⟨hfirst, hrest⟩
      exact ⟨first, rest, rfl, hfirst, hrest⟩
    · rintro ⟨_, _, heq, hfirst, hrest⟩
      cases heq
      exact ⟨hfirst, hrest⟩

theorem skipSpace_of_not_isSpace {c : Char} (h : isSpace c = false) (position : Nat)
    (rest : List Char) : Place.skipSpace ⟨position, c :: rest⟩ = ⟨position, c :: rest⟩ := by
  simp [Place.skipSpace, h, byteCount]

theorem skipSpace_space (position : Nat) (rest : List Char) :
    Place.skipSpace ⟨position, ' ' :: rest⟩ = Place.skipSpace ⟨position + 1, rest⟩ := by
  have hspace : isSpace ' ' = true := by decide
  have hsize : ' '.utf8Size = 1 := by decide
  simp only [Place.skipSpace, List.takeWhile_cons_of_pos hspace, List.dropWhile_cons_of_pos hspace,
    byteCount, List.foldr_cons, hsize, Place.mk.injEq, and_true]
  omega

theorem skipSpace_nil (position : Nat) : Place.skipSpace ⟨position, []⟩ = ⟨position, []⟩ := by
  simp [Place.skipSpace, byteCount]

/-- A key behind a space ends where its characters end, and then there has to be an equals
sign. -/
theorem readKey?_key {first : Char} {others : List Char} (hfirst : isSpace first = false)
    (hothers : ∀ c ∈ others, isKeyChar c = true) (position : Nat) {tail : List Char}
    (htail : tail.head?.any isKeyChar = false) :
    readKey? ⟨position, ' ' :: first :: others ++ tail⟩ =
      match Place.skipSpace ⟨position + 1 + byteCount (first :: others), tail⟩ with
      | ⟨later, '=' :: rest⟩ =>
        .ok (some ⟨position + 1, String.ofList (first :: others), ⟨later + 1, rest⟩⟩)
      | ⟨later, _⟩ => .error (.missingEquals later) := by
  have htake : (others ++ tail).takeWhile isKeyChar = others := by
    rw [List.takeWhile_append_of_pos hothers]
    rcases tail with _ | ⟨c, tail⟩
    · simp
    · simp_all
  have hdrop : (others ++ tail).dropWhile isKeyChar = tail := by
    rw [List.dropWhile_append_of_pos hothers]
    rcases tail with _ | ⟨c, tail⟩
    · rfl
    · simp_all
  have hplace : Place.skipSpace ⟨position, ' ' :: first :: others ++ tail⟩ =
      ⟨position + 1, first :: (others ++ tail)⟩ := by
    rw [List.cons_append, List.cons_append, skipSpace_space, skipSpace_of_not_isSpace hfirst]
  change (others ++ tail).takeWhile (fun c => c ≠ '=' && !isSpace c) = others at htake
  change (others ++ tail).dropWhile (fun c => c ≠ '=' && !isSpace c) = tail at hdrop
  unfold readKey?
  rw [hplace]
  simp only [htake, hdrop]
  rcases Place.skipSpace ⟨position + 1 + byteCount (first :: others), tail⟩ with ⟨later, rest⟩
  rcases rest with _ | ⟨c, rest⟩
  · rfl
  · by_cases hc : c = '='
    · subst hc
      rfl
    · simp [hc]

theorem readKey?_of_isReadableKey {key : String} (hkey : isReadableKey key = true)
    (position : Nat) (rest : List Char) :
    ∃ start later, readKey? ⟨position, ' ' :: key.toList ++ '=' :: rest⟩ =
      .ok (some ⟨start, key, ⟨later, rest⟩⟩) := by
  obtain ⟨first, others, hchars, hfirst, hothers⟩ := isReadableKey_iff.1 hkey
  have hequals : ('=' :: rest).head?.any isKeyChar = false := by simp [isKeyChar]
  have hread := readKey?_key hfirst hothers position hequals
  rw [skipSpace_of_not_isSpace (by decide), ← hchars, String.ofList_toList] at hread
  exact ⟨_, _, hread⟩

theorem readKey?_truncated {key : String} (hkey : isReadableKey key = true) {front : List Char}
    (hfront : front <+: key.toList) (hne : front ≠ []) (position : Nat) :
    ∃ cause, readKey? ⟨position, ' ' :: front⟩ = .error cause := by
  obtain ⟨first, others, hchars, hfirst, hothers⟩ := isReadableKey_iff.1 hkey
  rcases front with _ | ⟨c, front⟩
  · exact absurd rfl hne
  · obtain ⟨rfl, hcut⟩ := List.cons_prefix_cons.1 (hchars ▸ hfront)
    have hread := readKey?_key hfirst (fun x hx => hothers x (hcut.subset hx)) position
      (show ([] : List Char).head?.any isKeyChar = false from rfl)
    rw [List.append_nil, skipSpace_nil] at hread
    exact ⟨_, hread⟩

/-! ## Reading a value -/

theorem readValue_escaped (position : Nat) (value rest : List Char) :
    ∃ later, readValue ⟨position, '"' :: value.flatMap valueEscape ++ '"' :: rest⟩ =
      .ok ⟨value.flatMap valueEscape, ⟨later, rest⟩⟩ := by
  have hinside : ∀ x ∈ value.flatMap valueEscape, decide (x ≠ '"') = true := by
    simpa using flatMap_valueEscape_ne_quote value
  refine ⟨position + 1 + byteCount (value.flatMap valueEscape) + 1, ?_⟩
  unfold readValue
  rw [List.cons_append, skipSpace_of_not_isSpace isSpace_quote]
  simp only [List.takeWhile_append_of_pos hinside, List.dropWhile_append_of_pos hinside]
  simp

theorem readValue_truncated {value front : List Char}
    (hfront : front <+: '"' :: value.flatMap valueEscape) (position : Nat) :
    ∃ cause, readValue ⟨position, front⟩ = .error cause := by
  rcases front with _ | ⟨c, front⟩
  · exact ⟨_, by rw [readValue, skipSpace_nil]⟩
  · obtain ⟨rfl, hcut⟩ := List.cons_prefix_cons.1 hfront
    have hinside : ∀ x ∈ front, decide (x ≠ '"') = true := by
      intro x hx
      simpa using flatMap_valueEscape_ne_quote value x (hcut.subset hx)
    refine ⟨.missingQuote (position + 1 + byteCount front) '"', ?_⟩
    unfold readValue
    rw [skipSpace_of_not_isSpace isSpace_quote]
    have htake : front.takeWhile (fun x => decide (x ≠ '"')) = front := by
      rw [← List.append_nil front, List.takeWhile_append_of_pos hinside, List.takeWhile_nil]
    have hdrop : front.dropWhile (fun x => decide (x ≠ '"')) = [] := by
      rw [← List.append_nil front, List.dropWhile_append_of_pos hinside, List.dropWhile_nil]
    simp only [htake, hdrop]
    simp

/-! ## Reading attributes -/

theorem readAttributes_eq (seen : List (String × Nat)) (p : Place) :
    readAttributes seen p =
      match readKey? p with
      | .error cause => .error cause
      | .ok none => .ok []
      | .ok (some key) =>
        match seen.lookup key.name with
        | some previous => .error (.duplicated key.start previous)
        | none =>
          match readValue key.next with
          | .error cause => .error cause
          | .ok value =>
            match unescape value.raw with
            | .error cause => .error (.escape cause)
            | .ok content =>
              (readAttributes ((key.name, key.start) :: seen) value.next).map
                (⟨key.name, content⟩ :: ·) := by
  rw [readAttributes]
  split
  · next heq => rw [heq]
  · next heq => rw [heq]
  · next key heq =>
    rw [heq]
    simp only
    cases seen.lookup key.name with
    | some previous => rfl
    | none =>
      simp only
      split
      · next heq => rw [heq]
      · next value heq => rw [heq]; rfl

theorem readAttributes_chars {a : Attribute} (hkey : isReadableKey a.key = true)
    {seen : List (String × Nat)} (hseen : seen.lookup a.key = none) (position : Nat)
    (rest : List Char) :
    ∃ start later, readAttributes seen ⟨position, a.chars ++ rest⟩ =
      (readAttributes ((a.key, start) :: seen) ⟨later, rest⟩).map (a :: ·) := by
  obtain ⟨start, behindKey, hreadKey⟩ := readKey?_of_isReadableKey hkey position
    ('"' :: a.value.toList.flatMap valueEscape ++ '"' :: rest)
  obtain ⟨later, hreadValue⟩ := readValue_escaped behindKey a.value.toList rest
  have hchars : a.chars ++ rest = ' ' :: a.key.toList ++
      '=' :: ('"' :: a.value.toList.flatMap valueEscape ++ '"' :: rest) := by
    simp [Attribute.chars]
  refine ⟨start, later, ?_⟩
  rw [hchars, readAttributes_eq, hreadKey]
  simp only [hseen, hreadValue, unescape_escaped, String.ofList_toList]

/-- Attributes that can be read back: their keys are readable and differ. -/
def AreReadable (attributes : List Attribute) : Prop :=
  (∀ a ∈ attributes, isReadableKey a.key = true) ∧ (attributes.map (·.key)).Nodup

instance (attributes : List Attribute) : Decidable (AreReadable attributes) :=
  inferInstanceAs (Decidable (_ ∧ _))

theorem AreReadable.tail {a : Attribute} {attributes : List Attribute}
    (h : AreReadable (a :: attributes)) : AreReadable attributes :=
  ⟨fun b hb => h.1 b (List.mem_cons_of_mem _ hb), (List.nodup_cons.1 h.2).2⟩

/-- None of the attributes has a key that was seen before. -/
def AreNew (seen : List (String × Nat)) (attributes : List Attribute) : Prop :=
  ∀ a ∈ attributes, seen.lookup a.key = none

theorem AreNew.tail {a : Attribute} {attributes : List Attribute} {seen : List (String × Nat)}
    (h : AreNew seen (a :: attributes)) (hreadable : AreReadable (a :: attributes)) (start : Nat) :
    AreNew ((a.key, start) :: seen) attributes := by
  intro b hb
  have hne : b.key ≠ a.key := fun heq =>
    (List.nodup_cons.1 hreadable.2).1 (List.mem_map.2 ⟨b, hb, heq⟩)
  rw [List.lookup_cons, beq_eq_false_iff_ne.2 hne]
  exact h b (List.mem_cons_of_mem _ hb)

theorem readAttributes_flatMap_chars {attributes : List Attribute}
    (hreadable : AreReadable attributes) {seen : List (String × Nat)}
    (hnew : AreNew seen attributes) (position : Nat) (rest : List Char) :
    ∃ seen' later, readAttributes seen ⟨position, attributes.flatMap Attribute.chars ++ rest⟩ =
      (readAttributes seen' ⟨later, rest⟩).map (attributes ++ ·) := by
  induction attributes generalizing seen position with
  | nil =>
    refine ⟨seen, position, ?_⟩
    cases h : readAttributes seen ⟨position, rest⟩ <;> simp [h, Except.map]
  | cons a attributes ih =>
    obtain ⟨start, behind, hfirst⟩ := readAttributes_chars (hreadable.1 a List.mem_cons_self)
      (hnew a List.mem_cons_self) position (attributes.flatMap Attribute.chars ++ rest)
    obtain ⟨seen', later, hothers⟩ := ih hreadable.tail (hnew.tail hreadable start) behind
    refine ⟨seen', later, ?_⟩
    rw [List.flatMap_cons, List.append_assoc, hfirst, hothers]
    cases readAttributes seen' ⟨later, rest⟩ <;> rfl

theorem readAttributes_nil (seen : List (String × Nat)) (position : Nat) :
    readAttributes seen ⟨position, []⟩ = .ok [] := by
  rw [readAttributes_eq, readKey?, skipSpace_nil]

theorem readAttributes_space (seen : List (String × Nat)) (position : Nat) :
    readAttributes seen ⟨position, [' ']⟩ = .ok [] := by
  rw [readAttributes_eq, readKey?, skipSpace_space, skipSpace_nil]

/-- Where something other than space stands, there is an attribute or a fault. -/
theorem readAttributes_ne_nil {p : Place} {start : Nat} {c : Char} {rest : List Char}
    (hp : p.skipSpace = ⟨start, c :: rest⟩) (seen : List (String × Nat)) :
    readAttributes seen p ≠ .ok [] := by
  have hkey : readKey? p ≠ .ok none := by
    rw [readKey?, hp]
    simp only
    split <;> simp
  rw [readAttributes_eq]
  split
  · simp
  · next heq => exact absurd heq hkey
  · next key heq =>
    cases seen.lookup key.name with
    | some previous => simp
    | none =>
      cases readValue key.next with
      | error cause => simp
      | ok value =>
        simp only
        split
        · simp
        · cases readAttributes ((key.name, key.start) :: seen) value.next <;> simp [Except.map]

/-- Attributes that are followed by more than space are not the only ones that are read. -/
theorem readAttributes_continued {attributes : List Attribute}
    (hreadable : AreReadable attributes) {seen : List (String × Nat)}
    (hnew : AreNew seen attributes) (position : Nat) {rest : List Char}
    (hrest : ∀ later, ∃ start c others, Place.skipSpace ⟨later, rest⟩ = ⟨start, c :: others⟩) :
    readAttributes seen ⟨position, attributes.flatMap Attribute.chars ++ rest⟩ ≠ .ok attributes := by
  obtain ⟨seen', later, hread⟩ := readAttributes_flatMap_chars hreadable hnew position rest
  obtain ⟨start, c, others, hskip⟩ := hrest later
  have hmore := readAttributes_ne_nil hskip seen'
  rw [hread]
  cases h : readAttributes seen' ⟨later, rest⟩ with
  | error cause => simp [Except.map]
  | ok found => simpa [Except.map, h] using hmore

theorem readAttributes_error_of_readKey? {p : Place} {cause : AttributeError}
    (h : readKey? p = .error cause) (seen : List (String × Nat)) :
    readAttributes seen p = .error cause := by
  rw [readAttributes_eq, h]

/-- A front part of two texts ends inside the first, or goes on into the second. -/
theorem cut_append {front first second : List Char} (h : front <+: first ++ second) :
    (front <+: first ∧ front ≠ first) ∨ ∃ rest, front = first ++ rest ∧ rest <+: second := by
  rcases List.prefix_or_prefix_of_prefix h (List.prefix_append first second) with hfirst | ⟨rest, rfl⟩
  · by_cases heq : front = first
    · exact .inr ⟨[], by simp [heq], List.nil_prefix⟩
    · exact .inl ⟨hfirst, heq⟩
  · exact .inr ⟨rest, rfl, (List.prefix_append_right_inj first).1 h⟩

theorem readAttributes_truncated_chars {a : Attribute} (hkey : isReadableKey a.key = true)
    {front : List Char} (hfront : front <+: a.chars) (hne : front ≠ a.chars)
    (seen : List (String × Nat)) (position : Nat) {attributes : List Attribute}
    (hattributes : attributes ≠ []) : readAttributes seen ⟨position, front⟩ ≠ .ok attributes := by
  have hchars : a.chars =
      [' '] ++ (a.key.toList ++ ('=' :: ('"' :: a.value.toList.flatMap valueEscape ++ ['"']))) := by
    simp [Attribute.chars]
  rw [hchars] at hfront hne
  rcases cut_append hfront with ⟨hcut, hspace⟩ | ⟨behind, rfl, hbehind⟩
  · have hempty : front = [] := by
      rcases List.prefix_cons_iff.1 hcut with hnil | ⟨tail, rfl, htail⟩
      · exact hnil
      · exact absurd (by rw [List.prefix_nil.1 htail]) hspace
    rw [hempty, readAttributes_nil]
    simpa using hattributes.symm
  rcases cut_append hbehind with ⟨hcut, -⟩ | ⟨value, rfl, hvalue⟩
  · -- the key is cut off
    by_cases hempty : behind = []
    · rw [hempty, List.append_nil, readAttributes_space]
      simpa using hattributes.symm
    · obtain ⟨cause, hread⟩ := readKey?_truncated hkey hcut hempty position
      rw [List.singleton_append, readAttributes_error_of_readKey? hread]
      simp
  rcases value with _ | ⟨c, value⟩
  · -- the key is there, and the equals sign is not
    obtain ⟨first, others, hkeychars, -⟩ := isReadableKey_iff.1 hkey
    obtain ⟨cause, hread⟩ :=
      readKey?_truncated hkey (List.prefix_refl _) (by simp [hkeychars]) position
    rw [List.append_nil, List.singleton_append, readAttributes_error_of_readKey? hread]
    simp
  · -- the value is cut off
    obtain ⟨rfl, hprefix⟩ := List.cons_prefix_cons.1 hvalue
    have hcut : value <+: '"' :: a.value.toList.flatMap valueEscape :=
      (List.prefix_concat_iff.1 hprefix).resolve_left fun heq => hne (by rw [heq])
    obtain ⟨start, later, hread⟩ := readKey?_of_isReadableKey hkey position value
    obtain ⟨cause, hcause⟩ := readValue_truncated hcut later
    rw [List.singleton_append, ← List.cons_append, readAttributes_eq, hread]
    simp only [hcause]
    split <;> simp

/-- Written attributes that are cut off anywhere are not all read. -/
theorem readAttributes_truncated {attributes : List Attribute}
    (hreadable : AreReadable attributes) {seen : List (String × Nat)}
    (hnew : AreNew seen attributes) {front : List Char}
    (hfront : front <+: attributes.flatMap Attribute.chars)
    (hne : front ≠ attributes.flatMap Attribute.chars) (position : Nat) :
    readAttributes seen ⟨position, front⟩ ≠ .ok attributes := by
  induction attributes generalizing seen front position with
  | nil => simp_all
  | cons a attributes ih =>
    have hkey := hreadable.1 a List.mem_cons_self
    rw [List.flatMap_cons] at hfront hne
    rcases cut_append hfront with ⟨hcut, hcutne⟩ | ⟨rest, rfl, hrest⟩
    · exact readAttributes_truncated_chars hkey hcut hcutne seen position (List.cons_ne_nil _ _)
    · obtain ⟨start, later, hread⟩ :=
        readAttributes_chars hkey (hnew a List.mem_cons_self) position rest
      have hothers := ih hreadable.tail (hnew.tail hreadable start) hrest
        (fun heq => hne (by rw [heq])) later
      rw [hread]
      cases h : readAttributes ((a.key, start) :: seen) ⟨later, rest⟩ with
      | error cause => simp [Except.map]
      | ok found => simpa [Except.map, h] using hothers

end ApiDocs.Xml
