import ApiDocs.Proofs.Xml.Continuation
import ApiDocs.Proofs.Xml.WrittenAttribute

/-!
# Written tags

Names and keys are written as they are, while the reader looks for the end of a tag outside quotes
only, and takes a slash in front of that end for the mark of an element without content. So a
written tag is read back if it holds no `>` outside quotes, closes the quotes that it opens, and
ends in a slash only where one was written on purpose. Otherwise, whatever is read in its place is
not the tag.
-/

namespace ApiDocs.Xml

open Text

/-- The characters are the inside of a tag: the quotes that they open are closed, `quote` being
open before them, and no `>` stands outside quotes. -/
def isTagBody (quote : Option Char) : List Char → Bool
  | [] => quote = none
  | c :: rest => !(c = '>' && quote = none) && isTagBody (nextQuote quote c) rest

/-- The name is read as the name of a tag: it holds no white space and does not begin like other
markup. -/
def isReadableName (name : String) : Bool :=
  name.toList.all (! isSpace ·) && ! name.toList.head?.any (['!', '?', '/'].contains ·)

/-- The name and the attributes, as they are written in a tag. -/
def tagChars (name : String) (attributes : List Attribute) : List Char :=
  name.toList ++ attributes.flatMap Attribute.chars

/-- The inside of the first tag that is written for an element. -/
def startChars (name : String) (attributes : List Attribute) (children : List Node) : List Char :=
  tagChars name attributes ++ if children.isEmpty then [' ', '/'] else []

/-- The first tag that is written for an element ends where it was meant to end. -/
def tagHolds (name : String) (attributes : List Attribute) (children : List Node) : Bool :=
  isTagBody none (startChars name attributes children) &&
    (children.isEmpty || (startChars name attributes children).getLast? ≠ some '/')

/-- The name and the attributes of the element that an event begins. -/
def Event.head? : Event → Option (String × List Attribute)
  | .startTag tag | .emptyTag tag => tag.attributes.toOption.map (tag.name, ·)
  | _ => none

/-! ## Cutting tags -/

theorem cutTag?_of_isTagBody {quote : Option Char} {body : List Char}
    (h : isTagBody quote body = true) (rest : List Char) :
    cutTag? quote (body ++ '>' :: rest) = some (body, rest) := by
  induction body generalizing quote with
  | nil =>
    have hquote : quote = none := by simpa [isTagBody] using h
    simp [cutTag?, hquote]
  | cons c body ih =>
    simp only [isTagBody, Bool.and_eq_true, Bool.not_eq_true', Bool.and_eq_false_iff,
      decide_eq_false_iff_not] at h
    obtain ⟨hc, hbody⟩ := h
    rw [List.cons_append, cutTag?, if_neg (by rintro ⟨rfl, rfl⟩; simp at hc), ih hbody]
    rfl

theorem isTagBody_of_cutTag? {quote : Option Char} {cs before after : List Char}
    (h : cutTag? quote cs = some (before, after)) :
    isTagBody quote before = true ∧ cs = before ++ '>' :: after := by
  induction cs generalizing quote before with
  | nil => simp [cutTag?] at h
  | cons c rest ih =>
    rw [cutTag?] at h
    split at h
    · next hend =>
      obtain ⟨rfl, rfl⟩ := hend
      cases h
      exact ⟨rfl, rfl⟩
    · next hinside =>
      obtain ⟨⟨front, back⟩, hcut, heq⟩ := Option.map_eq_some_iff.1 h
      cases heq
      obtain ⟨hbody, rfl⟩ := ih hcut
      refine ⟨?_, rfl⟩
      rw [isTagBody, hbody]
      by_cases hc : c = '>' <;> simp_all

/-! ## Tags -/

theorem not_isSpace_of_isReadableName {name : String} (h : isReadableName name = true) :
    ∀ c ∈ name.toList, (! isSpace c) = true := by
  simp only [isReadableName, Bool.and_eq_true, List.all_eq_true] at h
  exact h.1

theorem ofContent_append {name : String} (hname : isReadableName name = true) {rest : List Char}
    (hrest : rest.head?.all isSpace = true) :
    Tag.ofContent (name.toList ++ rest) = ⟨name, String.ofList rest⟩ := by
  have hinside := not_isSpace_of_isReadableName hname
  rw [Tag.ofContent, List.takeWhile_append_of_pos hinside, List.dropWhile_append_of_pos hinside]
  rcases rest with _ | ⟨c, rest⟩
  · simp
  · have hc : isSpace c = true := by simpa using hrest
    simp [hc]

theorem head?_flatMap_chars (attributes : List Attribute) (rest : List Char)
    (hrest : rest.head?.all isSpace = true) :
    (attributes.flatMap Attribute.chars ++ rest).head?.all isSpace = true := by
  rcases attributes with _ | ⟨a, attributes⟩
  · simpa using hrest
  · simp [Attribute.chars]
    decide

theorem attributes_ofContent {name : String} (hname : isReadableName name = true)
    {attributes : List Attribute} (hreadable : AreReadable attributes) {rest : List Char}
    (hrest : rest = [] ∨ rest = [' ']) :
    (Tag.ofContent (tagChars name attributes ++ rest)).name = name ∧
      (Tag.ofContent (tagChars name attributes ++ rest)).attributes = .ok attributes := by
  have hspace : rest.head?.all isSpace = true := by
    rcases hrest with rfl | rfl <;> decide
  rw [tagChars, List.append_assoc,
    ofContent_append hname (head?_flatMap_chars attributes rest hspace)]
  refine ⟨rfl, ?_⟩
  have hnew : AreNew [] attributes := fun _ _ => rfl
  obtain ⟨seen, later, hread⟩ :=
    readAttributes_flatMap_chars hreadable hnew name.utf8ByteSize rest
  rw [Tag.attributes, String.toList_ofList, hread]
  rcases hrest with rfl | rfl
  · simp [readAttributes_nil, Except.map]
  · simp [readAttributes_space, Except.map]

theorem nextMarkup_of_head? {cs : List Char} (hne : cs ≠ [])
    (h : cs.head?.any (['!', '?', '/'].contains ·) = false) :
    nextMarkup cs = .ofCut .unclosedTag Event.ofTag (cutTag? none cs) := by
  rcases cs with _ | ⟨c, cs⟩
  · exact absurd rfl hne
  · unfold nextMarkup
    split <;> simp_all

theorem next_tag {name : String} (hname : isReadableName name = true)
    (attributes : List Attribute) {tail : List Char} (htail : tail ≠ [])
    (hhead : tail.head?.any (['!', '?', '/'].contains ·) = false) :
    next ('<' :: (tagChars name attributes ++ tail)) =
      .ofCut .unclosedTag Event.ofTag (cutTag? none (tagChars name attributes ++ tail)) := by
  refine nextMarkup_of_head? (by simp [htail]) ?_
  simp only [isReadableName, Bool.and_eq_true, Bool.not_eq_true'] at hname
  rw [tagChars, List.append_assoc]
  rcases hchars : name.toList with _ | ⟨c, others⟩
  · rcases attributes with _ | ⟨a, attributes⟩
    · simpa using hhead
    · simp [Attribute.chars]
  · simpa [hchars] using hname.2

theorem next_startTag {name : String} (hname : isReadableName name = true)
    {attributes : List Attribute} (hreadable : AreReadable attributes) {children : List Node}
    (hchildren : children.isEmpty = false) (hholds : tagHolds name attributes children = true)
    (rest : List Char) :
    ∃ tag : Tag, tag.name = name ∧ tag.attributes = .ok attributes ∧
      next ('<' :: (tagChars name attributes ++ '>' :: rest)) = .event (.startTag tag) rest := by
  simp only [tagHolds, startChars, hchildren, Bool.and_eq_true, Bool.false_or,
    List.append_nil, Bool.false_eq_true, if_false, decide_eq_true_eq] at hholds
  obtain ⟨hbody, hlast⟩ := hholds
  obtain ⟨htagname, hattributes⟩ := attributes_ofContent hname hreadable (.inl rfl)
  rw [List.append_nil] at htagname hattributes
  refine ⟨_, htagname, hattributes, ?_⟩
  rw [next_tag hname attributes (by simp) (by simp), cutTag?_of_isTagBody hbody]
  simp [Front.ofCut, Event.ofTag, hlast]

/-- A tag that holds is read as an element without content, if it was written for one. -/
theorem next_emptyTag {name : String} (hname : isReadableName name = true)
    {attributes : List Attribute} (hreadable : AreReadable attributes)
    (hholds : tagHolds name attributes [] = true) (rest : List Char) :
    ∃ tag : Tag, tag.name = name ∧ tag.attributes = .ok attributes ∧
      next ('<' :: (tagChars name attributes ++ ' ' :: '/' :: '>' :: rest)) =
        .event (.emptyTag tag) rest := by
  simp only [tagHolds, startChars, Bool.and_eq_true, List.isEmpty_nil, if_true] at hholds
  obtain ⟨htagname, hattributes⟩ := attributes_ofContent hname hreadable (.inr rfl)
  refine ⟨_, htagname, hattributes, ?_⟩
  have hcut := cutTag?_of_isTagBody hholds.1 rest
  rw [List.append_assoc] at hcut
  change cutTag? none (tagChars name attributes ++ ' ' :: '/' :: '>' :: rest) = _ at hcut
  rw [next_tag hname attributes (by simp) (by simp), hcut]
  simp [Front.ofCut, Event.ofTag, List.dropLast_append_of_ne_nil]

theorem next_endTag {name : String} (hname : isReadableName name = true)
    (hbody : isTagBody none name.toList = true) (rest : List Char) :
    next ('<' :: '/' :: (name.toList ++ '>' :: rest)) = .event (.endTag name) rest := by
  have hinside := not_isSpace_of_isReadableName hname
  have hkeep : dropTrailingSpace name.toList = name.toList := by
    rw [dropTrailingSpace]
    split
    · rfl
    · rcases hlast : name.toList.reverse with _ | ⟨c, others⟩
      · simpa using hlast.symm
      · have hc : ¬ isSpace c = true := by
          simpa using hinside c (List.mem_reverse.1 (hlast ▸ List.mem_cons_self))
        rw [List.dropWhile_cons_of_neg hc, ← hlast, List.reverse_reverse]
  simp only [next, nextMarkup, cutTag?_of_isTagBody hbody]
  simp [Front.ofCut, hkeep]

/-! ## Tags that do not hold -/

/-- The characters of a tag that belong to its name and its attributes: a slash at the end does
not. -/
def tagCore (content : List Char) : List Char :=
  if content.getLast? = some '/' then content.dropLast else content

theorem head?_ofTag (content : List Char) :
    (Event.ofTag content).head? =
      (Tag.ofContent (tagCore content)).attributes.toOption.map
        ((Tag.ofContent (tagCore content)).name, ·) := by
  unfold Event.ofTag tagCore
  split <;> rfl

theorem tagCore_isPrefix (content : List Char) : tagCore content <+: content := by
  unfold tagCore
  split
  · exact List.dropLast_prefix content
  · exact List.prefix_refl content

theorem eq_tagCore_or (content : List Char) :
    (content = tagCore content ∧ content.getLast? ≠ some '/') ∨ content = tagCore content ++ ['/'] := by
  unfold tagCore
  split
  · next hlast =>
    obtain ⟨front, rfl⟩ := List.getLast?_eq_some_iff.1 hlast
    exact .inr (by simp)
  · next hlast => exact .inl ⟨rfl, hlast⟩

/-- If the name and the attributes of an element are read where they were written, then they
reach from the front of the tag to the white space behind them. -/
theorem tagCore_eq {name : String} {attributes : List Attribute}
    (hreadable : AreReadable attributes) {tail core : List Char}
    (hcore : core <+: tagChars name attributes ++ tail)
    (htagname : (Tag.ofContent core).name = name)
    (hattributes : (Tag.ofContent core).attributes = .ok attributes) :
    ∃ behind, core = tagChars name attributes ++ behind ∧ behind <+: tail ∧
      behind.all isSpace = true := by
  have hfront : core.takeWhile (! isSpace ·) = name.toList := by
    rw [← htagname, Tag.ofContent, String.toList_ofList]
  have hsplit : core = name.toList ++ core.dropWhile (! isSpace ·) := by
    rw [← hfront, List.takeWhile_append_dropWhile]
  have hread : ∃ position,
      readAttributes [] ⟨position, core.dropWhile (! isSpace ·)⟩ = .ok attributes := by
    refine ⟨(Tag.ofContent core).name.utf8ByteSize, ?_⟩
    rw [← hattributes, Tag.attributes]
    simp [Tag.ofContent]
  obtain ⟨position, hread⟩ := hread
  have hprefix : core.dropWhile (! isSpace ·) <+: attributes.flatMap Attribute.chars ++ tail := by
    rw [hsplit, tagChars, List.append_assoc] at hcore
    exact (List.prefix_append_right_inj _).1 hcore
  rcases cut_append hprefix with ⟨hcut, hne⟩ | ⟨behind, hbehind, htail⟩
  · -- attributes that are cut off anywhere are not all read
    exact absurd hread (readAttributes_truncated hreadable (fun _ _ => rfl) hcut hne position)
  · refine ⟨behind, by rw [hsplit, hbehind, tagChars, List.append_assoc], htail, ?_⟩
    rw [hbehind] at hread
    cases hspace : behind.all isSpace with
    | true => rfl
    | false =>
      -- anything else behind them would be read as a further attribute
      refine absurd hread (readAttributes_continued hreadable (fun _ _ => rfl) position ?_)
      intro later
      rcases hdrop : behind.dropWhile isSpace with _ | ⟨c, others⟩
      · have hany := List.any_dropWhile (l := behind) (p := isSpace)
        simp [hdrop, hspace] at hany
      · exact ⟨_, c, others, by rw [Place.skipSpace, hdrop]⟩

/-- Where a tag was written and the same name and attributes are read, the tag was cut in the
white space behind its attributes, if a slash in front of the cut is left out. -/
theorem content_of_head? {name : String} {attributes : List Attribute}
    (hreadable : AreReadable attributes) {tail after content : List Char}
    (hcut : cutTag? none (tagChars name attributes ++ tail) = some (content, after))
    (hhead : (Event.ofTag content).head? = some (name, attributes)) :
    ∃ behind, tagCore content = tagChars name attributes ++ behind ∧ behind <+: tail ∧
      behind.all isSpace = true ∧ isTagBody none content = true ∧
      tagChars name attributes ++ tail = content ++ '>' :: after := by
  obtain ⟨hbody, hwhole⟩ := isTagBody_of_cutTag? hcut
  rw [head?_ofTag] at hhead
  obtain ⟨found, hfound, heq⟩ := Option.map_eq_some_iff.1 hhead
  cases heq
  have hattributes : (Tag.ofContent (tagCore content)).attributes = .ok attributes := by
    cases h : (Tag.ofContent (tagCore content)).attributes <;> simp_all [Except.toOption]
  have hprefix : tagCore content <+: tagChars (Tag.ofContent (tagCore content)).name attributes ++ tail :=
    hwhole ▸ (tagCore_isPrefix content).trans (List.prefix_append _ _)
  obtain ⟨behind, hcore, htail, hspace⟩ := tagCore_eq hreadable hprefix rfl hattributes
  exact ⟨behind, hcore, htail, hspace, hbody, hwhole⟩

/-- What is read where a tag was written for an element with content is the start of that element
only if the tag holds. -/
theorem tagHolds_of_startTag {name : String} {attributes : List Attribute}
    (hreadable : AreReadable attributes) {children : List Node}
    (hchildren : children.isEmpty = false) {rest after content : List Char}
    (hcut : cutTag? none (tagChars name attributes ++ '>' :: rest) = some (content, after))
    (hhead : (Event.ofTag content).head? = some (name, attributes)) :
    tagHolds name attributes children = true := by
  obtain ⟨behind, hcore, htail, hspace, hbody, hwhole⟩ :=
    content_of_head? hreadable hcut hhead
  have hbehind : behind = [] := by
    rcases List.prefix_cons_iff.1 htail with hnil | ⟨others, rfl, -⟩
    · exact hnil
    · simp [isSpace] at hspace
  rw [hbehind, List.append_nil] at hcore
  rcases eq_tagCore_or content with ⟨heq, hlast⟩ | heq
  · rw [hcore] at heq
    simp only [tagHolds, startChars, hchildren, Bool.and_eq_true, Bool.false_or,
      List.append_nil, Bool.false_eq_true, if_false, decide_eq_true_eq]
    exact ⟨heq ▸ hbody, heq ▸ hlast⟩
  · rw [hcore] at heq
    simp [heq] at hwhole

/-- What is read where a tag was written for an element without content is that element only if
the tag holds. -/
theorem tagHolds_of_emptyTag {name : String} {attributes : List Attribute}
    (hreadable : AreReadable attributes) {rest after content : List Char}
    (hcut : cutTag? none (tagChars name attributes ++ ' ' :: '/' :: '>' :: rest) =
      some (content, after))
    (hhead : (Event.ofTag content).head? = some (name, attributes)) :
    tagHolds name attributes [] = true := by
  obtain ⟨behind, hcore, htail, hspace, hbody, hwhole⟩ :=
    content_of_head? hreadable hcut hhead
  have hbehind : behind = [] ∨ behind = [' '] := by
    rcases List.prefix_cons_iff.1 htail with hnil | ⟨others, rfl, hothers⟩
    · exact .inl hnil
    · rcases List.prefix_cons_iff.1 hothers with rfl | ⟨others, rfl, -⟩
      · exact .inr rfl
      · simp [isSpace] at hspace
  rcases eq_tagCore_or content with ⟨heq, -⟩ | heq
  · rcases hbehind with rfl | rfl <;> (rw [heq, hcore] at hwhole; simp at hwhole)
  · rcases hbehind with rfl | rfl
    · rw [heq, hcore] at hwhole
      simp at hwhole
    · simp only [tagHolds, startChars, List.isEmpty_nil, if_true, Bool.true_or, Bool.and_true]
      rw [heq, hcore, List.append_assoc] at hbody
      exact hbody

end ApiDocs.Xml
