import ApiDocs.Xml.Printer
import ApiDocs.Xml.Reader
import ApiDocs.Proofs.Xml.Normal

/-!
# Reading on from a draft

The reader first cuts the whole input into events and then folds them. Here both are done
together: `Draft.readOn` is the outcome of reading the rest of the input from a draft on. The names
that the events are matched with are those of the elements that the draft has open, so a draft is
all that has to be remembered between two characters of a text, or between two events.
-/

namespace ApiDocs.Xml

open Text

namespace Draft

/-- The names of the open elements, the innermost first. -/
def openNames (d : Draft) : List String :=
  d.opened.map (·.name)

/-- The outcome of reading, once the draft has taken these events. -/
def complete (d : Draft) (reading : Reading) : Except Error Document := do
  let d ← reading.events.foldlM Draft.step d
  match reading.fault with
  | some cause => .error (.markup cause)
  | none => d.finish

/-- The outcome of reading `cs` from the draft on. -/
def readOn (d : Draft) (cs : List Char) : Except Error Document :=
  d.complete (.ofChars d.openNames cs)

/-- Puts a node where it belongs: an element may become the root. -/
def addNode (d : Draft) (node : Node) : Except Error Draft :=
  match node with
  | .element name attributes children => d.addElement ⟨name, attributes, children⟩
  | .comment content => .ok (d.addComment content)
  | node => .ok (d.addContent node)

@[simp] theorem openNames_mk (opened : List Element) (prolog : List Node) (root : Option Element) :
    openNames ⟨opened, prolog, root⟩ = opened.map (·.name) := rfl

@[simp] theorem openNames_addContent (d : Draft) (node : Node) :
    (d.addContent node).openNames = d.openNames := by
  unfold addContent
  split <;> simp_all [openNames, Element.push]

@[simp] theorem openNames_addComment (d : Draft) (content : String) :
    (d.addComment content).openNames = d.openNames := by
  unfold addComment
  split
  · simp_all [openNames]
  · rfl
  · exact openNames_addContent d _

theorem openNames_addElement {d d' : Draft} {e : Element} (h : d.addElement e = .ok d') :
    d'.openNames = d.openNames := by
  unfold addElement at h
  split at h
  · cases h
    simp_all [openNames]
  · cases h
  · cases h
    exact openNames_addContent d _

/-! ## Steps -/

/-- What a step does to a draft. -/
inductive Takes (d : Draft) : Event → Draft → Prop where
  | startTag {tag : Tag} {attributes : List Attribute} (h : tag.attributes = .ok attributes) :
      Takes d (.startTag tag) { d with opened := ⟨tag.name, attributes, []⟩ :: d.opened }
  | emptyTag {tag : Tag} {attributes : List Attribute} (h : tag.attributes = .ok attributes)
      {d' : Draft} (hadd : d.addElement ⟨tag.name, attributes, []⟩ = .ok d') :
      Takes d (.emptyTag tag) d'
  | endTag (name : String) {innermost : Element} {outer : List Element}
      (h : d.opened = innermost :: outer) {d' : Draft}
      (hadd : { d with opened := outer }.addElement innermost.dropIndentation = .ok d') :
      Takes d (.endTag name) d'
  | text (content : String) : Takes d (.text content) (d.addContent (.text content))
  | reference {name : String} {c : Char} (h : contentReference? name = some c) :
      Takes d (.reference name) (d.addContent (.text c.toString))
  | cdata (content : String) : Takes d (.cdata content) (d.addContent (.cdata content))
  | comment (content : String) : Takes d (.comment content) (d.addComment content)
  | instruction : Takes d .instruction d
  | doctype : Takes d .doctype d

theorem exists_of_bind_eq_ok {ε α β : Type} {x : Except ε α} {f : α → Except ε β} {b : β}
    (h : x.bind f = .ok b) : ∃ a, x = .ok a ∧ f a = .ok b := by
  cases x with
  | error cause => cases h
  | ok a => exact ⟨a, rfl, h⟩

theorem elementOfTag_eq_ok {tag : Tag} {e : Element} (h : elementOfTag tag = .ok e) :
    ∃ attributes, tag.attributes = .ok attributes ∧ e = ⟨tag.name, attributes, []⟩ := by
  unfold elementOfTag at h
  split at h
  · next attributes hattributes =>
    cases h
    exact ⟨attributes, hattributes, rfl⟩
  · cases h

theorem takes_of_step {d d' : Draft} {event : Event} (h : d.step event = .ok d') :
    d.Takes event d' := by
  cases event with
  | startTag tag =>
    obtain ⟨e, he, h⟩ := exists_of_bind_eq_ok h
    obtain ⟨attributes, hattributes, rfl⟩ := elementOfTag_eq_ok he
    cases h
    exact .startTag hattributes
  | emptyTag tag =>
    obtain ⟨e, he, h⟩ := exists_of_bind_eq_ok h
    obtain ⟨attributes, hattributes, rfl⟩ := elementOfTag_eq_ok he
    exact .emptyTag hattributes h
  | endTag name =>
    simp only [step] at h
    split at h
    · cases h
    · next hopened => exact .endTag name hopened h
  | reference name =>
    simp only [step] at h
    split at h
    · next c hc =>
      cases h
      exact .reference hc
    · cases h
  | text content | cdata content | comment content | instruction | doctype =>
    cases h
    constructor

/-- A step opens and closes the elements that its event opens and closes. -/
theorem openNames_step {d d' : Draft} {event : Event} {names : List String}
    (hnames : openedAfter d.openNames event = .ok names) (h : d.step event = .ok d') :
    d'.openNames = names := by
  cases takes_of_step h with
  | startTag _ =>
    cases hnames
    rfl
  | emptyTag _ hadd =>
    cases hnames
    exact openNames_addElement hadd
  | endTag name hopened hadd =>
    rw [openNames_addElement hadd]
    simp only [openNames, hopened, List.map_cons, openedAfter] at hnames
    split at hnames
    · cases hnames
      rfl
    · cases hnames
  | text _ | reference _ | cdata _ =>
    cases hnames
    exact openNames_addContent d _
  | comment content =>
    cases hnames
    exact openNames_addComment d content
  | instruction | doctype =>
    cases hnames
    rfl

/-- Reading on, one event at a time. -/
theorem readOn_eq (d : Draft) (cs : List Char) :
    d.readOn cs =
      match next cs with
      | .finished => d.finish
      | .unreadable cause => .error (.markup cause)
      | .event event rest =>
        match openedAfter d.openNames event with
        | .error cause => .error (.markup cause)
        | .ok _ => (d.step event).bind (·.readOn rest) := by
  unfold readOn
  rw [Reading.ofChars]
  split
  · next heq => simp [heq, complete, pure, Except.pure, bind, Except.bind]
  · next cause heq => simp [heq, complete, pure, Except.pure, bind, Except.bind]
  · next event rest heq =>
    cases hnames : openedAfter d.openNames event with
    | error cause => simp [heq, hnames, complete, pure, Except.pure, bind, Except.bind]
    | ok names =>
      cases hstep : d.step event with
      | error cause => simp [heq, hnames, complete, hstep, bind, Except.bind]
      | ok d' =>
        simp [heq, hnames, complete, hstep, bind, Except.bind, openNames_step hnames hstep]

theorem parse_eq_readOn (content : String) :
    Document.parse content = ({} : Draft).readOn (dropByteOrderMark content).toList := rfl

/-- Reading on over an event that opens and closes nothing. -/
theorem readOn_of_next {d d' : Draft} {cs rest : List Char} {event : Event} {names : List String}
    (hnext : next cs = .event event rest) (hnames : openedAfter d.openNames event = .ok names)
    (hstep : d.step event = .ok d') : d.readOn cs = d'.readOn rest := by
  rw [readOn_eq, hnext]
  simp only [hnames, hstep]
  rfl

/-! ## Content -/

theorem addContent_addContent_text (d : Draft) (s t : String) :
    (d.addContent (.text s)).addContent (.text t) = d.addContent (.text (s ++ t)) := by
  rcases d with ⟨_ | ⟨innermost, outer⟩, prolog, root⟩
  · rfl
  · simp [addContent, Element.push, Node.push_push_text]

@[simp] theorem addContent_text_empty (d : Draft) : d.addContent (.text "") = d := by
  rcases d with ⟨_ | ⟨innermost, outer⟩, prolog, root⟩
  · rfl
  · simp [addContent, Element.push]

/-- The character belongs to a run of text. -/
def isTextChar (c : Char) : Bool :=
  c ≠ '<' && c ≠ '&'

theorem next_of_isTextChar {c : Char} (h : isTextChar c = true) (rest : List Char) :
    next (c :: rest) =
      .event (.text (String.ofList (c :: rest.takeWhile isTextChar))) (rest.dropWhile isTextChar) := by
  rw [← List.takeWhile_cons_of_pos h, ← List.dropWhile_cons_of_pos h]
  unfold next
  split
  · simp at *
  · simp_all [isTextChar]
  · simp_all [isTextChar]
  · rfl

/-- A text can be read character by character: what is read of it later joins what was read
before. -/
theorem readOn_textChar {c : Char} (h : isTextChar c = true) (d : Draft) (rest : List Char) :
    d.readOn (c :: rest) = (d.addContent (.text (String.singleton c))).readOn rest := by
  rw [readOn_of_next (next_of_isTextChar h rest) rfl rfl]
  rcases rest with _ | ⟨x, rest⟩
  · rfl
  · cases hx : isTextChar x with
    | false =>
      have hstop : ¬ isTextChar x = true := by simp [hx]
      rw [List.takeWhile_cons_of_neg hstop, List.dropWhile_cons_of_neg hstop]
      rfl
    | true =>
      rw [List.takeWhile_cons_of_pos hx, List.dropWhile_cons_of_pos hx,
        readOn_of_next (next_of_isTextChar hx rest) rfl rfl, addContent_addContent_text,
        ← String.ofList_cons]

theorem next_reference {name : List Char} (hname : ∀ x ∈ name, x ≠ ';' ∧ x ≠ '&' ∧ x ≠ '<')
    (rest : List Char) :
    next ('&' :: name ++ ';' :: rest) = .event (.reference (String.ofList name)) rest := by
  have hends : ∀ x ∈ name, (! (x = ';' || x = '&' || x = '<')) = true := by
    intro x hx
    simpa [and_assoc] using hname x hx
  simp only [next, nextReference, List.cons_append]
  rw [List.dropWhile_append_of_pos hends, List.takeWhile_append_of_pos hends]
  simp

theorem readOn_reference {name : List Char} {c : Char}
    (hname : ∀ x ∈ name, x ≠ ';' ∧ x ≠ '&' ∧ x ≠ '<')
    (hc : contentReference? (String.ofList name) = some c) (d : Draft) (rest : List Char) :
    d.readOn ('&' :: name ++ ';' :: rest) =
      (d.addContent (.text (String.singleton c))).readOn rest := by
  refine readOn_of_next (next_reference hname rest) rfl ?_
  simp only [step, hc]
  rfl

theorem readOn_textEscape (d : Draft) (c : Char) (rest : List Char) :
    d.readOn (textEscape c ++ rest) = (d.addContent (.text (String.singleton c))).readOn rest := by
  unfold textEscape
  split
  · exact readOn_reference (by simp : ∀ x ∈ "lt".toList, _) (by decide) d rest
  · exact readOn_reference (by simp : ∀ x ∈ "gt".toList, _) (by decide) d rest
  · exact readOn_reference (by simp : ∀ x ∈ "amp".toList, _) (by decide) d rest
  · next hlt _ hamp => exact readOn_textChar (by simp_all [isTextChar]) d rest

/-- The written form of a text is read as that text. -/
theorem readOn_escaped (d : Draft) (content rest : List Char) :
    d.readOn (content.flatMap textEscape ++ rest) =
      (d.addContent (.text (String.ofList content))).readOn rest := by
  induction content generalizing d with
  | nil => simp
  | cons c content ih =>
    rw [List.flatMap_cons, List.append_assoc, readOn_textEscape, ih, addContent_addContent_text,
      ← String.ofList_cons]

end Draft

end ApiDocs.Xml
