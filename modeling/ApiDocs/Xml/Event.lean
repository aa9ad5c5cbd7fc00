import ApiDocs.Xml.Attribute

/-!
# The events of a document

A document is read as a sequence of events: tags, runs of text, references, CDATA sections,
comments and the rest of the markup. `next` finds what begins at the front of the input, and
`Reading.ofChars` repeats it, matching end tags with the elements they close. Tags are cut but
their attributes are not looked at, and references are not resolved.
-/

namespace ApiDocs.Xml

open Text

/-- A piece of a document. -/
inductive Event where
  | startTag (tag : Tag)
  | emptyTag (tag : Tag)
  | endTag (name : String)
  | text (content : String)
  | reference (name : String)
  | cdata (content : String)
  | comment (content : String)
  | instruction
  | doctype
  deriving DecidableEq, Repr

/-- Why markup cannot be read. -/
inductive MarkupError where
  | unclosedReference
  | unclosedTag
  | unknownDeclaration
  | unclosedComment
  | unclosedCData
  | unclosedDoctype
  | namelessDoctype
  | unclosedInstruction
  | unmatchedEndTag (name : String)
  | mismatchedEndTag (expected found : String)
  deriving DecidableEq, Repr

def MarkupError.message : MarkupError → String
  | .unclosedReference =>
    illFormed "entity or character reference not closed: `;` not found before end of input"
  | .unclosedTag => unreadable "tag not closed: `>` not found before end of input"
  | .unknownDeclaration => unreadable "unknown or missed symbol in markup"
  | .unclosedComment => unreadable "comment not closed: `-->` not found before end of input"
  | .unclosedCData => unreadable "CDATA not closed: `]]>` not found before end of input"
  | .unclosedDoctype => unreadable "DOCTYPE not closed: `>` not found before end of input"
  | .namelessDoctype =>
    illFormed "`<!DOCTYPE>` declaration does not contain a name of a document type"
  | .unclosedInstruction =>
    unreadable
      "processing instruction or xml declaration not closed: `?>` not found before end of input"
  | .unmatchedEndTag name => illFormed s!"close tag `</{name}>` does not match any open tag"
  | .mismatchedEndTag expected found =>
    illFormed s!"expected `</{expected}>`, but `</{found}>` was found"
where
  unreadable (detail : String) : String := "XML syntax error: syntax error: " ++ detail
  illFormed (detail : String) : String := "XML syntax error: ill-formed document: " ++ detail

/-! ## Cutting markup -/

/-- The quote that is open behind `c`, if `quote` was open before it. -/
def nextQuote (quote : Option Char) (c : Char) : Option Char :=
  match quote with
  | none => if c = '"' ∨ c = '\'' then some c else none
  | some q => if c = q then none else some q

/-- Cuts a tag at the first `>` outside quotes. -/
def cutTag? (quote : Option Char) : List Char → Option (List Char × List Char)
  | [] => none
  | c :: rest =>
    if c = '>' ∧ quote = none then some ([], rest)
    else (cutTag? (nextQuote quote c) rest).map fun (before, after) => (c :: before, after)

/-- Cuts at the first `>` that closes no inner `<`; `depth` of them are open. -/
def cutBalanced? (depth : Nat) : List Char → Option (List Char × List Char)
  | [] => none
  | c :: rest =>
    if c = '>' ∧ depth = 0 then some ([], rest)
    else
      let depth := if c = '<' then depth + 1 else if c = '>' then depth - 1 else depth
      (cutBalanced? depth rest).map fun (before, after) => (c :: before, after)

theorem length_lt_of_cutTag? {quote : Option Char} {cs before after : List Char}
    (h : cutTag? quote cs = some (before, after)) : after.length < cs.length := by
  induction cs generalizing quote before with
  | nil => simp [cutTag?] at h
  | cons c rest ih =>
    rw [cutTag?] at h
    split at h
    · simp_all
    · obtain ⟨⟨front, back⟩, hcut, heq⟩ := Option.map_eq_some_iff.1 h
      simp only [Prod.mk.injEq] at heq
      have := ih (heq.2 ▸ hcut)
      simp only [List.length_cons]
      omega

theorem length_lt_of_cutBalanced? {depth : Nat} {cs before after : List Char}
    (h : cutBalanced? depth cs = some (before, after)) : after.length < cs.length := by
  induction cs generalizing depth before with
  | nil => simp [cutBalanced?] at h
  | cons c rest ih =>
    rw [cutBalanced?] at h
    split at h
    · simp_all
    · obtain ⟨⟨front, back⟩, hcut, heq⟩ := Option.map_eq_some_iff.1 h
      simp only [Prod.mk.injEq] at heq
      have := ih (heq.2 ▸ hcut)
      simp only [List.length_cons]
      omega

/-- The characters without the white space behind the last other character. White space alone
is kept. -/
def dropTrailingSpace (cs : List Char) : List Char :=
  if cs.all isSpace then cs else (cs.reverse.dropWhile isSpace).reverse

/-! ## The next event -/

/-- What stands at the front of the input. -/
inductive Front where
  | finished
  | unreadable (cause : MarkupError)
  | event (event : Event) (rest : List Char)
  deriving DecidableEq, Repr

/-- The front that a cut yields: an event, or the fault that there is nothing to cut at. -/
def Front.ofCut (cause : MarkupError) (event : List Char → Event) :
    Option (List Char × List Char) → Front
  | some (content, rest) => .event (event content) rest
  | none => .unreadable cause

/-- The event of a tag that is no end tag. A tag that ends in `/` is an element of its own. -/
def Event.ofTag (content : List Char) : Event :=
  if content.getLast? = some '/' then .emptyTag (.ofContent content.dropLast)
  else .startTag (.ofContent content)

/-- Reads a document type declaration behind `<!`. -/
def nextDoctype (cs : List Char) : Front :=
  match cutBalanced? 0 cs with
  | none => .unreadable .unclosedDoctype
  | some (content, rest) =>
    if (content.take 7).map Char.toUpper ≠ "DOCTYPE".toList then .unreadable .unclosedDoctype
    else if (content.drop 7).all isSpace then .unreadable .namelessDoctype
    else .event .doctype rest

/-- Reads the markup behind `<!`. -/
def nextDeclaration (cs : List Char) : Front :=
  match cs with
  | '-' :: '-' :: rest =>
    .ofCut .unclosedComment (fun content => .comment (String.ofList content))
      (cutAt? "-->".toList rest)
  | '-' :: _ => .unreadable .unclosedComment
  | '[' :: 'C' :: 'D' :: 'A' :: 'T' :: 'A' :: '[' :: rest =>
    .ofCut .unclosedCData (fun content => .cdata (String.ofList content))
      (cutAt? "]]>".toList rest)
  | '[' :: _ => .unreadable .unclosedCData
  | 'D' :: _ | 'd' :: _ => nextDoctype cs
  | _ => .unreadable .unknownDeclaration

/-- Reads the markup behind `<`. -/
def nextMarkup (cs : List Char) : Front :=
  match cs with
  | [] => .unreadable .unclosedTag
  | '!' :: rest => nextDeclaration rest
  | '?' :: '>' :: _ => .unreadable .unclosedInstruction
  | '?' :: rest => .ofCut .unclosedInstruction (fun _ => .instruction) (cutAt? "?>".toList rest)
  | '/' :: rest =>
    .ofCut .unclosedTag (fun content => .endTag (String.ofList (dropTrailingSpace content)))
      (cutTag? none rest)
  | _ => .ofCut .unclosedTag Event.ofTag (cutTag? none cs)

/-- Reads the reference behind `&`. -/
def nextReference (cs : List Char) : Front :=
  let ends (c : Char) := c = ';' || c = '&' || c = '<'
  match cs.dropWhile (! ends ·) with
  | ';' :: rest => .event (.reference (String.ofList (cs.takeWhile (! ends ·)))) rest
  | _ => .unreadable .unclosedReference

/-- Reads the event at the front of the input. Text runs to the next markup or reference. -/
def next (cs : List Char) : Front :=
  match cs with
  | [] => .finished
  | '<' :: rest => nextMarkup rest
  | '&' :: rest => nextReference rest
  | _ =>
    let isText (c : Char) := c ≠ '<' && c ≠ '&'
    .event (.text (String.ofList (cs.takeWhile isText))) (cs.dropWhile isText)

/-! ## Each event uses up input -/

theorem Front.ofCut_eq_event {cause : MarkupError} {make : List Char → Event}
    {cut : Option (List Char × List Char)} {event : Event} {rest : List Char}
    (h : Front.ofCut cause make cut = .event event rest) :
    ∃ content, cut = some (content, rest) ∧ event = make content := by
  rcases cut with _ | ⟨content, after⟩
  · simp [Front.ofCut] at h
  · simp only [Front.ofCut, Front.event.injEq] at h
    exact ⟨content, by rw [h.2], h.1.symm⟩

theorem length_le_of_nextDoctype {cs rest : List Char} {event : Event}
    (h : nextDoctype cs = .event event rest) : rest.length ≤ cs.length := by
  unfold nextDoctype at h
  split at h
  · simp at h
  next content after hcut =>
    have := length_lt_of_cutBalanced? hcut
    split at h
    · simp at h
    · split at h
      · simp at h
      · simp only [Front.event.injEq] at h
        obtain ⟨-, rfl⟩ := h
        omega

theorem length_le_of_nextDeclaration {cs rest : List Char} {event : Event}
    (h : nextDeclaration cs = .event event rest) : rest.length ≤ cs.length := by
  unfold nextDeclaration at h
  split at h
  · obtain ⟨_, hcut, -⟩ := Front.ofCut_eq_event h
    have := length_le_of_cutAt? hcut
    simp only [List.length_cons]
    omega
  · simp at h
  · obtain ⟨_, hcut, -⟩ := Front.ofCut_eq_event h
    have := length_le_of_cutAt? hcut
    simp only [List.length_cons]
    omega
  · simp at h
  · exact length_le_of_nextDoctype h
  · exact length_le_of_nextDoctype h
  · simp at h

theorem length_le_of_nextMarkup {cs rest : List Char} {event : Event}
    (h : nextMarkup cs = .event event rest) : rest.length ≤ cs.length := by
  unfold nextMarkup at h
  split at h
  · simp at h
  · have := length_le_of_nextDeclaration h
    simp only [List.length_cons]
    omega
  · simp at h
  · obtain ⟨_, hcut, -⟩ := Front.ofCut_eq_event h
    have := length_le_of_cutAt? hcut
    simp only [List.length_cons]
    omega
  · obtain ⟨_, hcut, -⟩ := Front.ofCut_eq_event h
    have := length_lt_of_cutTag? hcut
    simp only [List.length_cons]
    omega
  · obtain ⟨_, hcut, -⟩ := Front.ofCut_eq_event h
    have := length_lt_of_cutTag? hcut
    omega

theorem length_le_of_nextReference {cs rest : List Char} {event : Event}
    (h : nextReference cs = .event event rest) : rest.length ≤ cs.length := by
  unfold nextReference at h
  simp only at h
  split at h
  next after hdrop =>
    have hle := length_dropWhile_le (fun c => ! (c = ';' || c = '&' || c = '<')) cs
    simp only [Front.event.injEq] at h
    rw [hdrop, List.length_cons, h.2] at hle
    omega
  · simp at h

/-- An event takes at least one character off the input. -/
theorem length_lt_of_next {cs rest : List Char} {event : Event}
    (h : next cs = .event event rest) : rest.length < cs.length := by
  unfold next at h
  split at h
  · simp at h
  · have := length_le_of_nextMarkup h
    simp only [List.length_cons]
    omega
  · have := length_le_of_nextReference h
    simp only [List.length_cons]
    omega
  next hnil hlt hamp =>
    rcases cs with _ | ⟨c, tail⟩
    · exact absurd rfl hnil
    · have hc : c ≠ '<' ∧ c ≠ '&' :=
        ⟨fun hc => hlt tail (by rw [hc]), fun hc => hamp tail (by rw [hc])⟩
      simp only [Front.event.injEq] at h
      have hle := length_dropWhile_le (fun c => c ≠ '<' && c ≠ '&') tail
      rw [← h.2]
      simp only [List.dropWhile_cons, List.length_cons]
      simp only [ne_eq, hc.1, not_false_eq_true, decide_true, hc.2, Bool.and_self, if_true]
      simp only [ne_eq] at hle
      omega

/-! ## All events -/

/-- The events of a document in order, up to the fault where reading stopped, if it did. -/
structure Reading where
  events : List Event
  fault : Option MarkupError
  deriving DecidableEq, Repr

/-- The names of the open elements behind an event, the innermost first. An end tag has to
close the innermost one. -/
def openedAfter (opened : List String) : Event → Except MarkupError (List String)
  | .startTag tag => .ok (tag.name :: opened)
  | .endTag name =>
    match opened with
    | [] => .error (.unmatchedEndTag name)
    | innermost :: outer =>
      if innermost = name then .ok outer else .error (.mismatchedEndTag innermost name)
  | _ => .ok opened

/-- Reads events to the end of the input, while the elements `opened` are open. -/
def Reading.ofChars (opened : List String) (cs : List Char) : Reading :=
  match _hnext : next cs with
  | .finished => ⟨[], none⟩
  | .unreadable cause => ⟨[], some cause⟩
  | .event event rest =>
    match openedAfter opened event with
    | .error cause => ⟨[], some cause⟩
    | .ok opened =>
      let others := Reading.ofChars opened rest
      { others with events := event :: others.events }
termination_by cs.length
decreasing_by exact length_lt_of_next _hnext

/-- Text without the byte order mark at its front. -/
def dropByteOrderMark (content : String) : String :=
  match content.toList with
  | '\uFEFF' :: rest => String.ofList rest
  | _ => content

/-- Reads the events of a document. One byte order mark at the front is no part of it. -/
def Reading.ofString (content : String) : Reading :=
  .ofChars [] (dropByteOrderMark content).toList

end ApiDocs.Xml
