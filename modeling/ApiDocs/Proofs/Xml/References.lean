import ApiDocs.Proofs.Xml.ReadTree

/-!
# What a reference means

A reference is read by one set of rules in content and by another one in the values of attributes.
The rules agree on the entities and on all numerals without a sign that are not zero, so that a
reference is the same character in both places or is refused in both. They differ on the mark of a
hexadecimal numeral: content takes an upper-case `X` for a lower-case one, and values refuse it.
-/

namespace ApiDocs.Xml

/-- The reference as it is written. -/
def referenceChars (name : String) : List Char :=
  '&' :: name.toList ++ [';']

/-- Nothing in the name ends a reference, or begins another one or a tag. -/
def isReferenceName (name : String) : Bool :=
  name.toList.all fun c => c ≠ ';' && c ≠ '&' && c ≠ '<'

/-- The base and the digits of a name that is a numeral. -/
def numeral? (name : String) : Option (Nat × List Char) :=
  match name.toList with
  | '#' :: 'x' :: digits | '#' :: 'X' :: digits => some (16, digits)
  | '#' :: digits => some (10, digits)
  | _ => none

/-- The name is a numeral with a plus sign. -/
def isSigned (name : String) : Bool :=
  (numeral? name).any (·.2.head? = some '+')

/-- The name is a numeral that an upper-case `X` marks as hexadecimal. -/
def isUpperHex (name : String) : Bool :=
  ['#', 'X'].isPrefixOf name.toList

/-- Wherever the reference stands in content, it is read as this character. -/
def ReadsInContent (name : String) (c : Char) : Prop :=
  ∀ (d : Draft) (rest : List Char),
    d.readOn (referenceChars name ++ rest) = (d.addContent (.text (String.singleton c))).readOn rest

/-- Wherever the reference stands in content, the document is refused for its sake. -/
def RefusedInContent (name : String) : Prop :=
  ∀ (d : Draft) (rest : List Char),
    d.readOn (referenceChars name ++ rest) = .error (.unknownReference name)

/-- Wherever the reference stands in a value, it is read as this character. -/
def ReadsInValue (name : String) (c : Char) : Prop :=
  ∀ (total position : Nat) (rest : List Char),
    ∃ later, unescapeFrom total position (referenceChars name ++ rest) =
      (unescapeFrom total later rest).map (c :: ·)

/-- Wherever the reference stands in a value, the value is refused, whatever follows. -/
def RefusedInValue (name : String) : Prop :=
  ∀ (total position : Nat) (rest : List Char),
    ∃ cause, unescapeFrom total position (referenceChars name ++ rest) = .error cause

/-- Content and values refuse the reference, or read it as the same character. -/
def HasOneMeaning (name : String) : Prop :=
  RefusedInContent name ∧ RefusedInValue name ∨ ∃ c, ReadsInContent name c ∧ ReadsInValue name c

/-- Content refuses both references, or reads them as the same character. -/
def MeanAlikeInContent (first second : String) : Prop :=
  RefusedInContent first ∧ RefusedInContent second ∨
    ∃ c, ReadsInContent first c ∧ ReadsInContent second c

/-! ## Where a reference stands -/

section Reference

variable {name : String} (hname : isReferenceName name = true)

include hname

theorem ne_of_isReferenceName : ∀ x ∈ name.toList, x ≠ ';' ∧ x ≠ '&' ∧ x ≠ '<' := by
  simpa [isReferenceName, and_assoc] using hname

theorem readsInContent {c : Char} (hc : contentReference? name = some c) :
    ReadsInContent name c := by
  intro d rest
  have hread := Draft.readOn_reference (ne_of_isReferenceName hname)
    (by rwa [String.ofList_toList]) d rest
  simpa [referenceChars] using hread

theorem refusedInContent (hc : contentReference? name = none) : RefusedInContent name := by
  intro d rest
  have hnext : next (referenceChars name ++ rest) = .event (.reference name) rest := by
    simpa [referenceChars] using Draft.next_reference (ne_of_isReferenceName hname) rest
  have hstep : d.step (.reference name) = .error (.unknownReference name) := by
    simp only [Draft.step, hc]
  rw [Draft.readOn_eq, hnext]
  simp only [openedAfter, hstep]
  rfl

theorem unescapeFrom_referenceChars (total position : Nat) (rest : List Char) :
    ∃ stop, unescapeFrom total position (referenceChars name ++ rest) =
      (valueReference (position + 1) stop name).bind fun c =>
        (unescapeFrom total (stop + 1) rest).map (c :: ·) := by
  have hinside : ∀ x ∈ name.toList, x ≠ '&' ∧ x ≠ ';' := fun x hx =>
    have hx := ne_of_isReferenceName hname x hx
    ⟨hx.2.1, hx.1⟩
  obtain ⟨stop, hread⟩ := unescapeFrom_name hinside total position rest
  refine ⟨stop, ?_⟩
  simpa [referenceChars] using hread

theorem readsInValue {c : Char}
    (hc : ∀ start stop, (valueReference start stop name).toOption = some c) :
    ReadsInValue name c := by
  intro total position rest
  obtain ⟨stop, hread⟩ := unescapeFrom_referenceChars hname total position rest
  refine ⟨stop + 1, ?_⟩
  cases hvalue : valueReference (position + 1) stop name with
  | error cause => simpa [hvalue, Except.toOption] using hc (position + 1) stop
  | ok c' =>
    have heq : c' = c := by simpa [hvalue, Except.toOption] using hc (position + 1) stop
    rw [hread, hvalue, heq]
    rfl

theorem refusedInValue (hc : ∀ start stop, (valueReference start stop name).toOption = none) :
    RefusedInValue name := by
  intro total position rest
  obtain ⟨stop, hread⟩ := unescapeFrom_referenceChars hname total position rest
  cases hvalue : valueReference (position + 1) stop name with
  | error cause => exact ⟨cause, by rw [hread, hvalue]; rfl⟩
  | ok c => simpa [hvalue, Except.toOption] using hc (position + 1) stop

/-- What the two sets of rules make of a name decides what they make of the reference. -/
theorem hasOneMeaning_of_toOption
    (h : ∀ start stop, (valueReference start stop name).toOption = contentReference? name) :
    HasOneMeaning name := by
  cases hc : contentReference? name with
  | none => exact .inl ⟨refusedInContent hname hc, refusedInValue hname (hc ▸ h)⟩
  | some c => exact .inr ⟨c, readsInContent hname hc, readsInValue hname (hc ▸ h)⟩

end Reference

/-- A reference that content reads and values refuse has two meanings. -/
theorem not_hasOneMeaning {name : String} (hname : isReferenceName name = true) {c : Char}
    (hcontent : contentReference? name = some c)
    (hvalue : ∀ start stop, (valueReference start stop name).toOption = none) :
    ¬ HasOneMeaning name := by
  rintro (⟨hrefused, -⟩ | ⟨c', -, hreads⟩)
  · -- the reference stands in front of the root, where content is dropped
    have hread := readsInContent hname hcontent {} "<e />".toList
    have hroot : ({} : Draft).readOn "<e />".toList = .ok ⟨[], ⟨"e", [], []⟩⟩ := by
      decide +kernel
    rw [hrefused] at hread
    exact absurd (hread.trans hroot) nofun
  · obtain ⟨later, hread⟩ := hreads 0 0 []
    obtain ⟨cause, herror⟩ := refusedInValue hname hvalue 0 0 []
    rw [herror, unescapeFrom] at hread
    cases hread

theorem meanAlikeInContent {first second : String} (hfirst : isReferenceName first = true)
    (hsecond : isReferenceName second = true)
    (h : contentReference? first = contentReference? second) : MeanAlikeInContent first second := by
  cases hc : contentReference? second with
  | none => exact .inl ⟨refusedInContent hfirst (h.trans hc), refusedInContent hsecond hc⟩
  | some c => exact .inr ⟨c, readsInContent hfirst (h.trans hc), readsInContent hsecond hc⟩

/-! ## Numerals -/

theorem readNumeral_of_digitValue?_eq_none {base : Nat} {c : Char}
    (h : digitValue? base c = none) (rest : List Char) :
    readNumeral base (c :: rest) = .error .invalidDigit := by
  simp [readNumeral, readDigits, h]

theorem digitValue?_minus (base : Nat) : digitValue? base '-' = none := by
  simp [digitValue?]

/-- Without a plus sign and for all code points but zero, both sets of rules read the same
numerals. -/
theorem toOption_valueNumeral {base : Nat} {digits : List Char} (hplus : digits.head? ≠ some '+')
    (hnull : charOfNumeral? base digits ≠ some (Char.ofNat 0)) :
    (valueNumeral base digits).toOption = charOfNumeral? base digits := by
  have hread : charOfNumeral? base digits = (readNumeral base digits).toOption.bind charOfCode? := by
    simp [charOfNumeral?, hplus]
  rw [hread] at hnull ⊢
  unfold valueNumeral
  split
  · next hsign =>
    obtain ⟨rest, rfl⟩ : ∃ rest, digits = '-' :: rest :=
      List.head?_eq_some_iff.1 (hsign.resolve_left hplus)
    rw [readNumeral_of_digitValue?_eq_none (digitValue?_minus base)]
    rfl
  · split
    · next heq => rw [heq]; rfl
    · next heq =>
      rw [heq] at hnull
      exact absurd rfl hnull
    · next code _ heq =>
      rw [heq]
      simp only [Except.toOption, Option.bind_some]
      cases charOfCode? code <;> rfl

/-! ## Names -/

theorem lookup_predefinedEntities {name : String} {rest : List Char}
    (h : name.toList = '#' :: rest) : predefinedEntities.lookup name = none := by
  have hnone : ∀ entity ∈ predefinedEntities, entity.1.toList.head? ≠ some '#' := by decide
  rw [List.lookup_eq_none_iff]
  intro entity hentity
  have hne : name ≠ entity.1 := by
    intro heq
    apply hnone entity hentity
    rw [← heq, h]
    rfl
  simpa using hne

theorem contentReference?_eq (name : String) :
    contentReference? name = (predefinedEntities.lookup name).or
      ((numeral? name).bind fun numeral => charOfNumeral? numeral.1 numeral.2) := by
  unfold contentReference? numeral?
  cases predefinedEntities.lookup name with
  | some c => rfl
  | none =>
    simp only [Option.none_or]
    split <;> simp_all

theorem exists_of_numeral? {name : String} {numeral : Nat × List Char}
    (h : numeral? name = some numeral) : ∃ rest, name.toList = '#' :: rest := by
  unfold numeral? at h
  split at h <;> simp_all

theorem valueReference_of_numeral? {name : String} {numeral : Nat × List Char}
    (h : numeral? name = some numeral) (hlower : isUpperHex name = false) (start stop : Nat) :
    valueReference start stop name = valueNumeral numeral.1 numeral.2 := by
  unfold valueReference
  unfold numeral? at h
  split at h
  · next digits heq =>
    cases h
    simp only [heq]
  · next digits heq =>
    simp [isUpperHex, heq] at hlower
  · next digits hx _ heq =>
    cases h
    rw [heq]
    split <;> simp_all
  · cases h

theorem valueReference_of_numeral?_eq_none {name : String} (h : numeral? name = none)
    (start stop : Nat) :
    (valueReference start stop name).toOption = predefinedEntities.lookup name := by
  unfold valueReference
  unfold numeral? at h
  split at h
  · cases h
  · cases h
  · cases h
  · split
    · simp_all
    · simp_all
    · cases predefinedEntities.lookup name <;> rfl

/-- To values the mark in upper case is the first digit of a decimal numeral. -/
theorem valueReference_of_isUpperHex {name : String} (h : isUpperHex name = true)
    (start stop : Nat) :
    valueReference start stop name = .error (.numeral .invalidDigit) := by
  obtain ⟨digits, hname⟩ := List.isPrefixOf_iff_prefix.1 h
  have hdigit : digitValue? 10 'X' = none := by decide
  simp [valueReference, ← hname, valueNumeral, readNumeral_of_digitValue?_eq_none hdigit]

theorem toOption_valueReference {name : String} (hsign : isSigned name = false)
    (hnull : contentReference? name ≠ some (Char.ofNat 0)) (hlower : isUpperHex name = false)
    (start stop : Nat) :
    (valueReference start stop name).toOption = contentReference? name := by
  rw [contentReference?_eq] at hnull ⊢
  cases hnumeral : numeral? name with
  | none =>
    rw [valueReference_of_numeral?_eq_none hnumeral]
    simp
  | some numeral =>
    obtain ⟨rest, hmark⟩ := exists_of_numeral? hnumeral
    have hplus : numeral.2.head? ≠ some '+' := by simpa [isSigned, hnumeral] using hsign
    simp only [lookup_predefinedEntities hmark, hnumeral, Option.none_or, Option.bind_some]
      at hnull ⊢
    rw [valueReference_of_numeral? hnumeral hlower]
    exact toOption_valueNumeral hplus hnull

/-- Content reads the mark in upper case for the one in lower case. -/
theorem contentReference?_upperHex (digits : String) :
    contentReference? ("#X" ++ digits) = contentReference? ("#x" ++ digits) := by
  have hupper : ("#X" ++ digits).toList = '#' :: 'X' :: digits.toList := by simp
  have hlower : ("#x" ++ digits).toList = '#' :: 'x' :: digits.toList := by simp
  rw [contentReference?_eq, contentReference?_eq, lookup_predefinedEntities hupper,
    lookup_predefinedEntities hlower]
  simp [numeral?]

/-- A reference means the same in content and in values, but for the mark of a hexadecimal numeral
in upper case: values refuse it, and content reads it for the one in lower case. -/
theorem hasOneMeaning_unless_upperHex {name : String} (hname : isReferenceName name = true)
    (hsign : isSigned name = false) (hnull : contentReference? name ≠ some (Char.ofNat 0)) :
    (isUpperHex name = false → HasOneMeaning name) ∧
    (isUpperHex name = true → RefusedInValue name ∧
      ∃ digits, name = "#X" ++ digits ∧ MeanAlikeInContent name ("#x" ++ digits)) := by
  constructor
  · intro hlower
    exact hasOneMeaning_of_toOption hname (toOption_valueReference hsign hnull hlower)
  · intro hupper
    constructor
    · apply refusedInValue hname
      intro start stop
      rw [valueReference_of_isUpperHex hupper]
      rfl
    · obtain ⟨digits, hdigits⟩ := List.isPrefixOf_iff_prefix.1 hupper
      have heq : name = "#X" ++ String.ofList digits := by
        apply String.toList_inj.1
        simp [← hdigits]
      refine ⟨String.ofList digits, heq, ?_⟩
      rw [heq] at hname ⊢
      apply meanAlikeInContent hname _ (contentReference?_upperHex _)
      simpa [isReferenceName] using hname

/-- A character beyond the first plane, and one with the mark in upper case. -/
theorem hasOneMeaning_unless_upperHex_sample :
    (∀ name ∈ ["#x1F600", "#XE9"], isReferenceName name = true ∧ isSigned name = false) ∧
      contentReference? "#x1F600" = some (Char.ofNat 0x1F600) ∧ HasOneMeaning "#x1F600" ∧
      contentReference? "#XE9" = some (Char.ofNat 0xE9) ∧ RefusedInValue "#XE9" ∧
      ∃ digits, "#XE9" = "#X" ++ digits ∧ MeanAlikeInContent "#XE9" ("#x" ++ digits) := by
  have hlower := hasOneMeaning_unless_upperHex (by decide : isReferenceName "#x1F600" = true)
    (by decide) (by decide)
  have hupper := hasOneMeaning_unless_upperHex (by decide : isReferenceName "#XE9" = true)
    (by decide) (by decide)
  exact ⟨by decide, by decide, hlower.1 (by decide), by decide, hupper.2 (by decide)⟩

/-- A mark in upper case, a sign and the null character are read in content alone. -/
theorem not_hasOneMeaning_upperHex :
    (∀ name ∈ ["#X41", "#+65", "#0"], isReferenceName name = true ∧ ¬ HasOneMeaning name) ∧
      Document.parse "<e>&#X41;</e>" = .ok ⟨[], ⟨"e", [], [.text "A"]⟩⟩ ∧
      Document.parse "<e k=\"&#X41;\" />" =
        .error (.attribute (.escape (.numeral .invalidDigit))) := by
  refine ⟨?_, by decide +kernel, by decide +kernel⟩
  have hread : ∀ name ∈ ["#X41", "#+65", "#0"],
      isReferenceName name = true ∧ (contentReference? name).isSome = true ∧
        ∀ start stop, (valueReference start stop name).toOption = none := by
    simp only [List.forall_mem_cons]
    exact ⟨⟨by decide, by decide, fun _ _ => rfl⟩, ⟨by decide, by decide, fun _ _ => rfl⟩,
      ⟨by decide, by decide, fun _ _ => rfl⟩, nofun⟩
  intro name hmem
  obtain ⟨hname, hcontent, hvalue⟩ := hread name hmem
  obtain ⟨c, hc⟩ := Option.isSome_iff_exists.1 hcontent
  exact ⟨hname, not_hasOneMeaning hname hc hvalue⟩

end ApiDocs.Xml
