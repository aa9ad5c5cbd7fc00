import ApiDocs.Fragment
import ApiDocs.Proofs.Text.Words
import ApiDocs.Proofs.Xml.DocumentOrder

/-!
# The section of a fragment

What is taken over from a fragment are the children of its first section in document order. An
element is a section by its name, or by a word of its first attribute for classes.
-/

namespace ApiDocs

open Xml

theorem Xml.Element.attribute?_eq_some_iff {e : Element} {key value : String} :
    e.attribute? key = some value ↔
      ∃ front back, e.attributes = front ++ ⟨key, value⟩ :: back ∧ ∀ a ∈ front, a.key ≠ key := by
  rw [attribute?, Option.map_eq_some_iff]
  constructor
  · rintro ⟨⟨found, _⟩, hfind, rfl⟩
    obtain ⟨hkey, front, back, hsplit, hfront⟩ := List.find?_eq_some_iff_append.1 hfind
    obtain rfl : found = key := of_decide_eq_true hkey
    exact ⟨front, back, hsplit, by simpa using hfront⟩
  · rintro ⟨front, back, hsplit, hfront⟩
    refine ⟨⟨key, value⟩, List.find?_eq_some_iff_append.2 ⟨?_, front, back, hsplit, ?_⟩, rfl⟩
    · exact decide_eq_true rfl
    · simpa using hfront

namespace FragmentLibrary

/-- The element has the name of sections, or the first of its attributes with the key for classes
has the word in it. -/
def IsSection (e : Element) : Prop :=
  e.name = "section" ∨ ∃ front classes back,
    e.attributes = front ++ ⟨"class", classes⟩ :: back ∧ (∀ a ∈ front, a.key ≠ "class") ∧
      Text.StandsIn "section" classes

theorem isSection_iff {e : Element} : isSection e = true ↔ IsSection e := by
  have hletters : "section".toList.all (! Text.isBlank ·) = true := by decide
  have hwords (classes : String) :
      "section" ∈ Text.words classes ↔ Text.StandsIn "section" classes := by
    apply Text.mem_words_iff (by decide)
    intro c hc
    simpa using List.all_eq_true.1 hletters c hc
  simp only [isSection, IsSection, Bool.or_eq_true, decide_eq_true_eq, Option.any_eq_true,
    List.contains_iff_mem, hwords, Element.attribute?_eq_some_iff]
  constructor
  · rintro (hname | ⟨classes, ⟨front, back, hsplit, hfront⟩, hword⟩)
    · exact .inl hname
    · exact .inr ⟨front, classes, back, hsplit, hfront, hword⟩
  · rintro (hname | ⟨front, classes, back, hsplit, hfront, hword⟩)
    · exact .inl hname
    · exact .inr ⟨classes, ⟨front, back, hsplit, hfront⟩, hword⟩

theorem content_of_isFirst {e found : Element} (h : e.IsFirst IsSection found) :
    content e = found.children := by
  have hfind : e.find? isSection = some found := by
    rw [Element.find?_eq_some_iff]
    simpa only [isSection_iff] using h
  rw [content, hfind, Option.getD_some]

theorem content_of_forall_not {e : Element} (h : ∀ x ∈ e.elements, ¬ IsSection x) :
    content e = e.children := by
  have hfind : e.find? isSection = none := by
    rw [Element.find?_eq_none_iff]
    simpa only [isSection_iff] using h
  rw [content, hfind, Option.getD_none]

/-- A search gives the first element in document order that satisfies what is asked for, and so the
content of a fragment is that of its first section, or its own without one. -/
theorem content_firstSection (e : Element) :
    (∀ (p : Element → Bool) (found : Element),
        e.find? p = some found ↔ e.IsFirst (p · = true) found) ∧
      (∀ p : Element → Bool, e.find? p = none ↔ ∀ x ∈ e.elements, ¬ p x = true) ∧
      (∀ found, e.IsFirst IsSection found → content e = found.children) ∧
      ((∀ x ∈ e.elements, ¬ IsSection x) → content e = e.children) :=
  ⟨fun _ _ => Element.find?_eq_some_iff, fun _ => Element.find?_eq_none_iff,
    fun _ => content_of_isFirst, content_of_forall_not⟩

/-- The first section, by its class, has another one inside and one by its name behind it. The
elements around it are none: the word is a part of another one, or in a second attribute. -/
theorem content_firstSection_nested :
    let found : Element := ⟨"div", [⟨"id", "d"⟩, ⟨"class", "api\u2003section"⟩],
      [.text "outer", .element "section" [] [.text "inner"]]⟩
    let around : Element := ⟨"div", [⟨"class", "sections"⟩], [.comment "c", found.toNode]⟩
    let e : Element := ⟨"html", [⟨"class", ""⟩, ⟨"class", "section"⟩],
      [.text "t", around.toNode, .element "section" [] []]⟩
    e.IsFirst IsSection found ∧ content e = found.children := by
  intro found around e
  have hsections : IsSection found ∧ ¬ IsSection e ∧ ¬ IsSection around := by
    simp only [← isSection_iff]
    decide
  have hfirst : e.IsFirst IsSection found := by
    refine ⟨[e, around], [⟨"section", [], [.text "inner"]⟩, ⟨"section", [], []⟩], ?_, ?_⟩
    · rfl
    · simpa using hsections
  exact ⟨hfirst, (content_firstSection e).2.2.1 found hfirst⟩

end FragmentLibrary

end ApiDocs
