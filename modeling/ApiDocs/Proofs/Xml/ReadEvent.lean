import ApiDocs.Proofs.Xml.WrittenTree

/-!
# Events that were read

What can be told of an event from its having been read: names hold no white space, keys are
readable and differ, an end tag has closed the quotes in its name, and CDATA sections and comments do
not hold the mark that ended them.
-/

namespace ApiDocs.Xml

open Text

/-! ## Marks -/

theorem not_occurs_of_cutAt? {mark : List Char} (hmark : mark ≠ []) {cs before after : List Char}
    (h : cutAt? mark cs = some (before, after)) : occurs mark before = false := by
  induction cs generalizing before with
  | nil => simp [cutAt?] at h
  | cons c rest ih =>
    rw [cutAt?] at h
    split at h
    · cases h
      simpa [occurs] using hmark
    · next hfront =>
      obtain ⟨⟨front, back⟩, hcut, heq⟩ := Option.map_eq_some_iff.1 h
      cases heq
      rw [occurs, ih hcut, Bool.or_false, Bool.eq_false_iff]
      -- a mark that ended in front of the cut would have been found here
      intro hmarked
      refine hfront (List.isPrefixOf_iff_prefix.2 ?_)
      refine (List.isPrefixOf_iff_prefix.1 hmarked).trans ?_
      rw [eq_of_cutAt? hcut, List.append_assoc]
      exact List.cons_prefix_cons.2 ⟨rfl, List.prefix_append _ _⟩

/-! ## Names -/

/-- White space at the end changes nothing inside a tag. -/
theorem isTagBody_append_space {quote : Option Char} (hquote : ∀ q ∈ quote, isSpace q = false)
    {cs spaces : List Char} (hspaces : ∀ c ∈ spaces, isSpace c = true) :
    isTagBody quote (cs ++ spaces) = isTagBody quote cs := by
  induction cs generalizing quote with
  | nil =>
    induction spaces with
    | nil => rfl
    | cons c spaces ih =>
      obtain ⟨hc, hspaces⟩ := List.forall_mem_cons.1 hspaces
      have hnext : nextQuote quote c = quote := by
        cases quote with
        | none =>
          have hne : c ≠ '"' ∧ c ≠ '\'' := by
            constructor <;> (rintro rfl; revert hc; decide)
          simp [nextQuote, hne]
        | some q =>
          have hne : c ≠ q := by
            rintro rfl
            simp [hquote c rfl] at hc
          simp [nextQuote, hne]
      have hend : c ≠ '>' := by
        rintro rfl
        revert hc
        decide
      simpa [isTagBody, hnext, hend] using ih hspaces
  | cons c cs ih =>
    rw [List.cons_append, isTagBody, isTagBody, ih]
    intro q hq
    cases quote with
    | none =>
      simp only [nextQuote] at hq
      split at hq
      · next hc =>
        cases hq
        rcases hc with rfl | rfl <;> decide
      · cases hq
    | some before =>
      simp only [nextQuote] at hq
      split at hq
      · cases hq
      · cases hq
        exact hquote _ rfl

theorem isTagBody_dropTrailingSpace {cs : List Char} (h : isTagBody none cs = true) :
    isTagBody none (dropTrailingSpace cs) = true := by
  unfold dropTrailingSpace
  split
  · exact h
  · have hsplit : cs = (cs.reverse.dropWhile isSpace).reverse ++
        (cs.reverse.takeWhile isSpace).reverse := by
      rw [← List.reverse_append, List.takeWhile_append_dropWhile, List.reverse_reverse]
    rw [hsplit, isTagBody_append_space (by simp)] at h
    · exact h
    · intro c hc
      exact List.all_eq_true.1 List.all_takeWhile c (List.mem_reverse.1 hc)

/-- The name of a tag is readable if the content does not begin like other markup. -/
theorem isReadableName_ofContent {content : List Char}
    (h : content.head?.any (['!', '?', '/'].contains ·) = false) :
    isReadableName (Tag.ofContent content).name = true := by
  rw [isReadableName, Tag.ofContent, String.toList_ofList, List.all_takeWhile, Bool.true_and,
    Bool.not_eq_true']
  rcases content with _ | ⟨c, content⟩
  · rfl
  · cases hc : isSpace c <;> simp_all

/-! ## Keys -/

theorem isReadableKey_of_readKey? {p : Place} {key : Key} (h : readKey? p = .ok (some key)) :
    isReadableKey key.name = true := by
  unfold readKey? at h
  split at h
  · cases h
  · next start first rest hp =>
    simp only at h
    split at h
    · cases h
      refine isReadableKey_iff.2 ⟨first, _, String.toList_ofList, ?_, ?_⟩
      · have hdrop : p.rest.dropWhile isSpace = first :: rest := congrArg Place.rest hp
        have hfirst := List.head?_dropWhile_not isSpace p.rest
        rw [hdrop] at hfirst
        simpa using hfirst
      · exact List.all_eq_true.1 (List.all_takeWhile (p := isKeyChar))
    · cases h

/-- The keys that are read are readable, differ, and have not been seen before. -/
theorem areReadable_of_readAttributes {seen : List (String × Nat)} {p : Place}
    {attributes : List Attribute} (h : readAttributes seen p = .ok attributes) :
    AreReadable attributes ∧ AreNew seen attributes := by
  induction seen, p using readAttributes.induct generalizing attributes with
  | case1 seen p cause hkey =>
    rw [readAttributes_eq, hkey] at h
    cases h
  | case2 seen p hkey =>
    rw [readAttributes_eq, hkey] at h
    cases h
    exact ⟨⟨by simp, List.nodup_nil⟩, by simp [AreNew]⟩
  | case3 seen p key hkey previous hseen =>
    rw [readAttributes_eq, hkey] at h
    simp [hseen] at h
  | case4 seen p key hkey hseen cause hvalue =>
    rw [readAttributes_eq, hkey] at h
    simp [hseen, hvalue] at h
  | case5 seen p key hkey hseen value hvalue cause hcontent =>
    rw [readAttributes_eq, hkey] at h
    simp [hseen, hvalue, hcontent] at h
  | case6 seen p key hkey hseen value hvalue content hcontent ih =>
    rw [readAttributes_eq, hkey] at h
    simp only [hseen, hvalue, hcontent] at h
    cases hothers : readAttributes ((key.name, key.start) :: seen) value.next with
    | error cause => simp [hothers, Except.map] at h
    | ok others =>
      simp only [hothers, Except.map, Except.ok.injEq] at h
      subst h
      -- the key counted as seen while the others were read, so none of them has it
      obtain ⟨⟨hreadable, hdiffer⟩, hnew⟩ := ih hothers
      have hfresh : ∀ a ∈ others, a.key ≠ key.name ∧ seen.lookup a.key = none := by
        intro a ha
        have hlookup := hnew a ha
        rw [List.lookup_cons] at hlookup
        split at hlookup
        · cases hlookup
        · next hne => exact ⟨by simpa using hne, hlookup⟩
      refine ⟨⟨List.forall_mem_cons.2 ⟨isReadableKey_of_readKey? hkey, hreadable⟩, ?_⟩,
        List.forall_mem_cons.2 ⟨hseen, fun a ha => (hfresh a ha).2⟩⟩
      rw [List.map_cons, List.nodup_cons]
      refine ⟨fun hmem => ?_, hdiffer⟩
      obtain ⟨a, ha, heq⟩ := List.mem_map.1 hmem
      exact (hfresh a ha).1 heq

/-! ## Events -/

/-- The event has what reading it takes care of. -/
def Event.isReadable : Event → Bool
  | .startTag tag | .emptyTag tag => isReadableName tag.name
  | .endTag name => isTagBody none name.toList
  | .cdata content => ! endsCData content
  | .comment content => ! endsComment content
  | .text _ | .reference _ | .instruction | .doctype => true

theorem isReadable_of_nextDoctype {cs rest : List Char} {event : Event}
    (h : nextDoctype cs = .event event rest) : event.isReadable = true := by
  unfold nextDoctype at h
  split at h
  · cases h
  · split at h
    · cases h
    · split at h
      · cases h
      · cases h
        rfl

theorem isReadable_of_nextDeclaration {cs rest : List Char} {event : Event}
    (h : nextDeclaration cs = .event event rest) : event.isReadable = true := by
  unfold nextDeclaration at h
  split at h
  · obtain ⟨content, hcut, rfl⟩ := Front.ofCut_eq_event h
    rw [Event.isReadable, endsComment, String.toList_ofList (l := content),
      not_occurs_of_cutAt? (by decide) hcut, Bool.not_false]
  · cases h
  · obtain ⟨content, hcut, rfl⟩ := Front.ofCut_eq_event h
    rw [Event.isReadable, endsCData, String.toList_ofList (l := content),
      not_occurs_of_cutAt? (by decide) hcut, Bool.not_false]
  · cases h
  · exact isReadable_of_nextDoctype h
  · exact isReadable_of_nextDoctype h
  · cases h

theorem isReadable_ofTag {content : List Char}
    (h : content.head?.any (['!', '?', '/'].contains ·) = false) :
    (Event.ofTag content).isReadable = true := by
  unfold Event.ofTag
  split
  · refine isReadableName_ofContent ?_
    rcases content with _ | ⟨c, _ | ⟨x, content⟩⟩
    · rfl
    · rfl
    · simpa using h
  · exact isReadableName_ofContent h

theorem isReadable_of_nextMarkup {cs rest : List Char} {event : Event}
    (h : nextMarkup cs = .event event rest) : event.isReadable = true := by
  unfold nextMarkup at h
  split at h
  · cases h
  · exact isReadable_of_nextDeclaration h
  · cases h
  · obtain ⟨_, _, rfl⟩ := Front.ofCut_eq_event h
    rfl
  · obtain ⟨content, hcut, rfl⟩ := Front.ofCut_eq_event h
    simpa [Event.isReadable] using isTagBody_dropTrailingSpace (isTagBody_of_cutTag? hcut).1
  · next hdeclaration _ hinstruction hend =>
    obtain ⟨content, hcut, rfl⟩ := Front.ofCut_eq_event h
    refine isReadable_ofTag ?_
    obtain ⟨-, rfl⟩ := isTagBody_of_cutTag? hcut
    rcases content with _ | ⟨c, content⟩
    · rfl
    · have hc : c ≠ '!' ∧ c ≠ '?' ∧ c ≠ '/' :=
        ⟨fun hc => hdeclaration _ (by rw [hc]; rfl), fun hc => hinstruction _ (by rw [hc]; rfl),
          fun hc => hend _ (by rw [hc]; rfl)⟩
      simp [hc]

/-- Whatever is read has what reading it takes care of. -/
theorem isReadable_of_next {cs rest : List Char} {event : Event}
    (h : next cs = .event event rest) : event.isReadable = true := by
  unfold next at h
  split at h
  · cases h
  · exact isReadable_of_nextMarkup h
  · unfold nextReference at h
    simp only at h
    split at h
    · cases h
      rfl
    · cases h
  · cases h
    rfl

end ApiDocs.Xml
