import ApiDocs.Proofs.Xml.ReadPieces

/-!
# The fault of a document

What is wrong with a document can be told from its events, in the order of the input, by what they
open and close and without a tree. The reader fails with the first fault of that list, and it
succeeds if there is none. An end tag without an element to close is not among them, since the
events end before it.
-/

namespace ApiDocs.Xml

/-- What is wrong with an event by itself. -/
def Event.fault? : Event → Option Error
  | .startTag tag | .emptyTag tag =>
    match tag.attributes with
    | .ok _ => none
    | .error cause => some (.attribute cause)
  | .reference name =>
    if (contentReference? name).isNone then some (.unknownReference name) else none
  | _ => none

/-- What events have opened and closed: the names of the elements that are still open, the innermost
first, and the number of those that are complete with none around them. -/
structure Outline where
  opened : List String := []
  roots : Nat := 0
  deriving DecidableEq, Repr

namespace Outline

/-- An element is complete, with `outer` around it. -/
def complete (o : Outline) (outer : List String) : Outline :=
  ⟨outer, if outer.isEmpty then o.roots + 1 else o.roots⟩

def after (o : Outline) : Event → Outline
  | .startTag tag => { o with opened := tag.name :: o.opened }
  | .emptyTag _ => o.complete o.opened
  | .endTag _ => o.complete o.opened.tail
  | _ => o

/-- What is wrong with the next event. An element that becomes a second root is wrong once it is
complete. -/
def fault? (o : Outline) (event : Event) : Option Error :=
  event.fault?.or (if 0 < o.roots ∧ o.roots < (o.after event).roots then some .secondRoot else none)

/-- What is wrong with the next events, in order. -/
def faults (o : Outline) : List Event → List Error
  | [] => []
  | event :: rest => (o.fault? event).toList ++ (o.after event).faults rest

/-- What is wrong if the input ends here. -/
def faultsAtEnd (o : Outline) : List Error :=
  (o.opened.head?.map .unclosedElement).toList ++ if o.roots = 0 then [.missingRoot] else []

end Outline

/-- The outline of all events. -/
def Reading.outline (o : Outline) (r : Reading) : Outline :=
  r.events.foldl Outline.after o

/-- What is wrong with a document, in the order of the input, behind events with the outline `o`. -/
def Reading.faults (o : Outline) (r : Reading) : List Error :=
  o.faults r.events ++ (r.fault.map .markup).toList ++ (r.outline o).faultsAtEnd

/-! ## Outlines -/

namespace Outline

variable {o : Outline} {event : Event}

theorem roots_after (o : Outline) (event : Event) :
    (o.after event).roots = o.roots ∨ (o.after event).roots = o.roots + 1 := by
  have hcomplete (outer : List String) :
      (o.complete outer).roots = o.roots ∨ (o.complete outer).roots = o.roots + 1 := by
    rw [complete]
    split
    · exact .inr rfl
    · exact .inl rfl
  cases event with
  | emptyTag | endTag => exact hcomplete _
  | _ => exact .inl rfl

theorem roots_le_foldl (o : Outline) (events : List Event) :
    o.roots ≤ (events.foldl after o).roots := by
  induction events generalizing o with
  | nil => exact Nat.le_refl _
  | cons event rest ih =>
    have hafter := roots_after o event
    have hrest := ih (o.after event)
    rw [List.foldl_cons]
    omega

theorem fault?_eq_none_iff (h : o.roots ≤ 1) :
    o.fault? event = none ↔ event.fault? = none ∧ (o.after event).roots ≤ 1 := by
  have hafter := roots_after o event
  rw [fault?, Option.or_eq_none_iff, ite_eq_right_iff]
  refine and_congr_right fun _ => ⟨fun hroots => ?_, fun hroots hmany => by omega⟩
  refine Nat.le_of_not_lt fun hmany => ?_
  cases hroots (by omega)

/-- Nothing is wrong with events if nothing is wrong with each of them, and there is one root at
most. -/
theorem faults_eq_nil_iff (h : o.roots ≤ 1) (events : List Event) :
    o.faults events = [] ↔
      (∀ event ∈ events, event.fault? = none) ∧ (events.foldl after o).roots ≤ 1 := by
  induction events generalizing o with
  | nil => simp [faults, h]
  | cons event rest ih =>
    rw [faults, List.append_eq_nil_iff, Option.toList_eq_nil_iff, fault?_eq_none_iff h,
      List.forall_mem_cons, List.foldl_cons]
    constructor
    · rintro ⟨⟨hevent, hroots⟩, hrest⟩
      obtain ⟨hevents, hlast⟩ := (ih hroots).1 hrest
      exact ⟨⟨hevent, hevents⟩, hlast⟩
    · rintro ⟨⟨hevent, hevents⟩, hlast⟩
      have hroots := Nat.le_trans (roots_le_foldl (o.after event) rest) hlast
      exact ⟨⟨hevent, hroots⟩, (ih hroots).2 ⟨hevents, hlast⟩⟩

theorem faultsAtEnd_eq_nil_iff : o.faultsAtEnd = [] ↔ o.opened = [] ∧ o.roots ≠ 0 := by
  simp [faultsAtEnd]

end Outline

namespace Reading

theorem faults_cons (o : Outline) (event : Event) (rest : List Event) (fault : Option MarkupError) :
    faults o ⟨event :: rest, fault⟩ =
      (o.fault? event).toList ++ faults (o.after event) ⟨rest, fault⟩ := by
  simp only [faults, Outline.faults, outline, List.foldl_cons, List.append_assoc]

theorem faults_eq_nil_iff (r : Reading) :
    r.faults {} = [] ↔ r.fault = none ∧ (∀ event ∈ r.events, event.fault? = none) ∧
      (r.outline {}).roots = 1 ∧ (r.outline {}).opened = [] := by
  rw [faults, List.append_eq_nil_iff, List.append_eq_nil_iff, Outline.faults_eq_nil_iff (by simp),
    Option.toList_eq_nil_iff, Option.map_eq_none_iff, Outline.faultsAtEnd_eq_nil_iff, outline]
  constructor
  · rintro ⟨⟨⟨hevents, hroots⟩, hfault⟩, hopened, hroot⟩
    exact ⟨hfault, hevents, by omega, hopened⟩
  · rintro ⟨hfault, hevents, hroots, hopened⟩
    exact ⟨⟨⟨hevents, by omega⟩, hfault⟩, hopened, by omega⟩

theorem ofChars_of_unreadable {opened : List String} {cs : List Char} {cause : MarkupError}
    (h : next cs = .unreadable cause) : ofChars opened cs = ⟨[], some cause⟩ := by
  rw [ofChars]
  split <;> simp_all

theorem ofChars_of_mismatch {opened : List String} {cs rest : List Char} {event : Event}
    {cause : MarkupError} (h : next cs = .event event rest)
    (hnames : openedAfter opened event = .error cause) : ofChars opened cs = ⟨[], some cause⟩ := by
  rw [ofChars]
  split <;> simp_all

end Reading

/-! ## Drafts -/

/-- Why there is no result. -/
def failure? {ε α : Type} : Except ε α → Option ε
  | .ok _ => none
  | .error cause => some cause

theorem failure?_eq_some_iff {ε α : Type} {x : Except ε α} {cause : ε} :
    failure? x = some cause ↔ x = .error cause := by
  cases x <;> simp [failure?]

theorem failure?_eq_none_iff {ε α : Type} {x : Except ε α} :
    failure? x = none ↔ ∃ a, x = .ok a := by
  cases x <;> simp [failure?]

namespace Draft

variable {d : Draft}

/-- The outline of the events that the draft has taken. -/
def outline (d : Draft) : Outline :=
  ⟨d.openNames, if d.root.isSome then 1 else 0⟩

theorem failure?_elementOfTag (tag : Tag) :
    failure? (elementOfTag tag) = (Event.startTag tag).fault? := by
  rw [elementOfTag, Event.fault?]
  cases tag.attributes <;> rfl

theorem failure?_addElement (d : Draft) (e : Element) :
    failure? (d.addElement e) =
      if 0 < d.outline.roots ∧ d.outline.roots < (d.outline.complete d.openNames).roots then
        some .secondRoot
      else none := by
  rcases d with ⟨_ | ⟨innermost, outer⟩, prolog, _ | root⟩ <;>
    simp [addElement, failure?, outline, Outline.complete, openNames]

theorem outline_addElement {d' : Draft} {e : Element} (h : d.addElement e = .ok d') :
    d'.outline = d.outline.complete d.openNames := by
  rcases d with ⟨_ | ⟨innermost, outer⟩, prolog, _ | root⟩ <;> cases h <;>
    simp [outline, Outline.complete, addContent, openNames, Element.push]

theorem outline_addContent (node : Node) : (d.addContent node).outline = d.outline := by
  rw [outline, outline, openNames_addContent]
  rcases d with ⟨_ | ⟨innermost, outer⟩, prolog, root⟩ <;> rfl

theorem outline_addComment (content : String) : (d.addComment content).outline = d.outline := by
  rw [outline, outline, openNames_addComment]
  rcases d with ⟨_ | ⟨innermost, outer⟩, prolog, _ | root⟩ <;> rfl

/-- A step that succeeds follows the outline. -/
theorem outline_of_takes {event : Event} {d' : Draft} (h : d.Takes event d') :
    d'.outline = d.outline.after event := by
  cases h with
  | startTag _ => rfl
  | emptyTag _ hadd => exact outline_addElement hadd
  | endTag name hopened hadd =>
    have houter : d.outline.opened.tail = _ :=
      congrArg (fun opened => (opened.map (·.name)).tail) hopened
    rw [outline_addElement hadd, Outline.after, houter]
    rfl
  | text content | cdata content => exact outline_addContent _
  | reference _ => exact outline_addContent _
  | comment content => exact outline_addComment content
  | instruction | doctype => rfl

/-- A step fails with the fault that its event has behind the events before it. -/
theorem failure?_step {event : Event} {names : List String}
    (hnames : openedAfter d.openNames event = .ok names) :
    failure? (d.step event) = d.outline.fault? event := by
  cases event with
  | startTag tag =>
    have hkept : d.outline.fault? (.startTag tag) = (Event.startTag tag).fault? := by
      simp [Outline.fault?, Outline.after]
    rw [hkept, ← failure?_elementOfTag, step]
    cases elementOfTag tag <;> rfl
  | emptyTag tag =>
    have hfault : (Event.emptyTag tag).fault? = failure? (elementOfTag tag) :=
      (failure?_elementOfTag tag).symm
    rw [Outline.fault?, hfault, step]
    cases elementOfTag tag with
    | error cause => rfl
    | ok e => exact failure?_addElement d e
  | endTag name =>
    rcases d with ⟨_ | ⟨innermost, outer⟩, prolog, root⟩
    · cases hnames
    · exact failure?_addElement ⟨outer, prolog, root⟩ innermost.dropIndentation
  | reference name =>
    have hkept : d.outline.fault? (.reference name) = (Event.reference name).fault? := by
      simp [Outline.fault?, Outline.after]
    rw [hkept, step, Event.fault?]
    cases contentReference? name <;> rfl
  | text content | cdata content | comment content | instruction | doctype =>
    simp [Outline.fault?, Outline.after, Event.fault?, step, failure?]

theorem failure?_finish (d : Draft) : failure? d.finish = d.outline.faultsAtEnd.head? := by
  rcases d with ⟨_ | ⟨innermost, outer⟩, prolog, _ | root⟩ <;> rfl

/-! ## All events -/

/-- Reading on fails with the first thing that is wrong with what follows. -/
theorem failure?_readOn (d : Draft) (cs : List Char) :
    failure? (d.readOn cs) = ((Reading.ofChars d.openNames cs).faults d.outline).head? := by
  induction hlength : cs.length using Nat.strongRecOn generalizing d cs with
  | ind length ih =>
    rw [readOn_eq]
    split
    · next hnext =>
      rw [Reading.ofChars_of_finished hnext]
      exact failure?_finish d
    · next cause hnext =>
      rw [Reading.ofChars_of_unreadable hnext]
      rfl
    · next event rest hnext =>
      split
      · next cause hnames =>
        rw [Reading.ofChars_of_mismatch hnext hnames]
        rfl
      · next names hnames =>
        rw [Reading.ofChars_of_event hnext hnames, Reading.faults_cons, ← failure?_step hnames]
        cases hstep : d.step event with
        | error cause => rfl
        | ok d' =>
          have hrest := ih _ (hlength ▸ length_lt_of_next hnext) d' rest rfl
          rw [openNames_step hnames hstep, outline_of_takes (takes_of_step hstep)] at hrest
          exact hrest

end Draft

theorem Event.fault?_ne_unexpectedEndTag (event : Event) :
    event.fault? ≠ some .unexpectedEndTag := by
  cases event with
  | startTag tag | emptyTag tag =>
    rw [fault?]
    cases tag.attributes <;> simp
  | reference name =>
    rw [fault?]
    split <;> simp
  | _ => nofun

theorem Outline.ne_unexpectedEndTag_of_mem_faults {o : Outline} {events : List Event}
    {cause : Error} (h : cause ∈ o.faults events) : cause ≠ .unexpectedEndTag := by
  induction events generalizing o with
  | nil => cases h
  | cons event rest ih =>
    rcases List.mem_append.1 h with hevent | hrest
    · rintro rfl
      rw [Option.mem_toList, fault?, Option.or_eq_some_iff] at hevent
      rcases hevent with hevent | ⟨-, hroots⟩
      · exact event.fault?_ne_unexpectedEndTag hevent
      · split at hroots <;> cases hroots
    · exact ih hrest

theorem Reading.ne_unexpectedEndTag_of_mem_faults {o : Outline} {r : Reading} {cause : Error}
    (h : cause ∈ r.faults o) : cause ≠ .unexpectedEndTag := by
  rintro rfl
  simp only [faults, List.mem_append] at h
  rcases h with (hevents | hfault) | hend
  · exact Outline.ne_unexpectedEndTag_of_mem_faults hevents rfl
  · cases r.fault <;> simp at hfault
  · simp [Outline.faultsAtEnd] at hend

/-- A document is read if the reading ends at the end of the input, nothing is wrong with any event,
and one element is complete and none open in the end. Otherwise the first thing that is wrong is
told, and that is never an end tag without an element to close. -/
theorem Document.parse_firstFault (s : String) :
    ((∃ d, Document.parse s = .ok d) ↔
      (Reading.ofString s).fault = none ∧
        (∀ event ∈ (Reading.ofString s).events, event.fault? = none) ∧
        ((Reading.ofString s).outline {}).roots = 1 ∧
        ((Reading.ofString s).outline {}).opened = []) ∧
      (∀ cause, Document.parse s = .error cause ↔
        ((Reading.ofString s).faults {}).head? = some cause) ∧
      Document.parse s ≠ .error .unexpectedEndTag := by
  have hfirst : failure? (Document.parse s) = ((Reading.ofString s).faults {}).head? :=
    Draft.failure?_readOn {} (dropByteOrderMark s).toList
  refine ⟨?_, fun cause => ?_, fun herror => ?_⟩
  · rw [← failure?_eq_none_iff, hfirst, List.head?_eq_none_iff, Reading.faults_eq_nil_iff]
  · rw [← failure?_eq_some_iff, hfirst]
  · rw [← failure?_eq_some_iff, hfirst] at herror
    exact Reading.ne_unexpectedEndTag_of_mem_faults (List.mem_of_head? herror) rfl

/-- What is wrong inside a second root comes before the second root. -/
example : (Reading.ofString "<a/><b>&x;</b><c>").faults {} =
    [.unknownReference "x", .secondRoot, .unclosedElement "c"] := by
  decide +kernel

end ApiDocs.Xml
