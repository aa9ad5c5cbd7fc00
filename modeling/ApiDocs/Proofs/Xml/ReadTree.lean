import ApiDocs.Proofs.Xml.ReadEvent
import ApiDocs.Proofs.Xml.RoundTrip

/-!
# Trees that were read

The draft of a reader keeps an invariant from event to event: whatever is complete in it is
readable and in normal form, and an open element has readable names and joined texts. So every document
that is read is in normal form, and has all that legibility asks for but that its tags hold.
-/

namespace ApiDocs.Xml

namespace Node

/-- The node has what reading it takes care of: readable names, keys that differ, and no mark that
would end it. An element with content had an end tag, so its name closes the quotes in it. -/
def isReadable : Node → Bool
  | .element name attributes children =>
    isReadableName name && decide (AreReadable attributes) &&
      (children.isEmpty || isTagBody none name.toList)
  | .text _ => true
  | .cdata content => ! endsCData content
  | .comment content => ! endsComment content

/-- The node is as the reader leaves it. -/
def isRead (node : Node) : Bool :=
  node.isReadable && node.isTidy

/-- The first tag of the node, if it is an element, ends where it was meant to end. -/
def holds : Node → Bool
  | .element name attributes children => tagHolds name attributes children
  | _ => true

theorem isReadable_element_iff {name : String} {attributes : List Attribute}
    {children : List Node} :
    (element name attributes children).isReadable = true ↔
      isReadableName name = true ∧ AreReadable attributes ∧
        (children.isEmpty = true ∨ isTagBody none name.toList = true) := by
  simp [isReadable, and_assoc]

theorem isLegible_of_holds {node : Node} (hreadable : node.isReadable = true)
    (hholds : node.holds = true) : node.isLegible = true := by
  cases node with
  | element name attributes children =>
    obtain ⟨hname, hattributes, hbody⟩ := isReadable_element_iff.1 hreadable
    exact isLegible_element_iff.2 ⟨hname, hattributes, hholds, hbody⟩
  | _ => exact hreadable

theorem all_and {p q : Node → Bool} : ∀ {node : Node}, node.all p = true → node.all q = true →
    node.all (fun node => p node && q node) = true
  | .element _ _ _, hp, hq => by
    obtain ⟨hpnode, hpchildren⟩ := all_element_iff.1 hp
    obtain ⟨hqnode, hqchildren⟩ := all_element_iff.1 hq
    exact all_element_iff.2 ⟨Bool.and_eq_true_iff.2 ⟨hpnode, hqnode⟩, fun child hchild =>
      all_and (hpchildren child hchild) (hqchildren child hchild)⟩
  | .text _, hp, hq | .cdata _, hp, hq | .comment _, hp, hq => Bool.and_eq_true_iff.2 ⟨hp, hq⟩

end Node

/-! ## Open elements -/

namespace Element

/-- The element is open: its tag was read, and children that are as the reader leaves them. -/
structure IsOpen (e : Element) : Prop where
  name : isReadableName e.name = true
  attributes : AreReadable e.attributes
  joined : Node.Joined e.children
  children : ∀ child ∈ e.children, child.all Node.isRead = true

theorem isOpen_push {e : Element} (he : e.IsOpen) {node : Node}
    (hnode : node.all Node.isRead = true) : (e.push node).IsOpen where
  name := he.name
  attributes := he.attributes
  joined := by
    rw [push, Node.push_eq_joinTexts he.joined]
    exact Node.joined_joinTexts _
  children child hchild := by
    rw [push, Node.push_eq_joinTexts he.joined] at hchild
    rcases Node.mem_of_mem_joinTexts hchild with htext | hmem
    · exact Node.all_of_isText (fun _ => rfl) htext
    · rcases List.mem_append.1 hmem with hmem | hmem
      · exact he.children child hmem
      · exact List.mem_singleton.1 hmem ▸ hnode

/-- An element that is closed loses its layout, and is as the reader leaves it. -/
theorem all_isRead_close {e : Element} (he : e.IsOpen)
    (hname : isTagBody none e.name.toList = true) :
    e.dropIndentation.toNode.all Node.isRead = true := by
  refine Node.all_element_iff.2 ⟨Bool.and_eq_true_iff.2 ⟨?_, ?_⟩, fun child hchild => ?_⟩
  · exact Node.isReadable_element_iff.2 ⟨he.name, he.attributes, .inr hname⟩
  · refine Node.isTidyList_iff.2 ⟨Node.joined_filter ?_ he.joined, fun child hchild => ?_⟩
    · intro node hnode
      cases node <;> simp_all [Node.isText, Node.isIndentation]
    · simpa using (List.mem_filter.1 hchild).2
  · exact he.children child (List.mem_filter.1 hchild).1

end Element

/-! ## Results -/

instance decidableEqExcept {ε α : Type} [DecidableEq ε] [DecidableEq α] :
    DecidableEq (Except ε α)
  | .ok a, .ok b => decidable_of_iff (a = b) (by simp)
  | .error e, .error f => decidable_of_iff (e = f) (by simp)
  | .ok _, .error _ => isFalse nofun
  | .error _, .ok _ => isFalse nofun

/-! ## Drafts -/

namespace Draft

/-- What holds of a draft between any two events. -/
structure IsSound (d : Draft) : Prop where
  prolog : ∀ node ∈ d.prolog, node.isComment = true ∧ node.isReadable = true
  root : ∀ e ∈ d.root, e.toNode.all Node.isRead = true
  opened : ∀ e ∈ d.opened, e.IsOpen

variable {d : Draft}

theorem isSound_addContent (hd : d.IsSound) {node : Node} (hnode : node.all Node.isRead = true) :
    (d.addContent node).IsSound := by
  rcases d with ⟨_ | ⟨innermost, outer⟩, prolog, root⟩
  · exact hd
  · obtain ⟨hinnermost, houter⟩ := List.forall_mem_cons.1 hd.opened
    exact ⟨hd.prolog, hd.root,
      List.forall_mem_cons.2 ⟨Element.isOpen_push hinnermost hnode, houter⟩⟩

theorem isSound_addComment (hd : d.IsSound) {content : String}
    (hcontent : endsComment content = false) : (d.addComment content).IsSound := by
  have hnode : (Node.comment content).isReadable = true := by simp [Node.isReadable, hcontent]
  unfold addComment
  split
  · refine ⟨fun node hmem => ?_, hd.root, hd.opened⟩
    rcases List.mem_append.1 hmem with hmem | hmem
    · exact hd.prolog node hmem
    · obtain rfl := List.mem_singleton.1 hmem
      exact ⟨rfl, hnode⟩
  · exact hd
  · exact isSound_addContent hd (Bool.and_eq_true_iff.2 ⟨hnode, rfl⟩)

theorem isSound_addElement (hd : d.IsSound) {e : Element} (he : e.toNode.all Node.isRead = true)
    {d' : Draft} (h : d.addElement e = .ok d') : d'.IsSound := by
  unfold addElement at h
  split at h
  · cases h
    exact ⟨hd.prolog, by simpa using he, hd.opened⟩
  · cases h
  · cases h
    exact isSound_addContent hd he

theorem isOpen_of_attributes {tag : Tag} (hname : isReadableName tag.name = true)
    {attributes : List Attribute} (h : tag.attributes = .ok attributes) :
    Element.IsOpen ⟨tag.name, attributes, []⟩ :=
  ⟨hname, (areReadable_of_readAttributes h).1, trivial, by simp⟩

theorem all_isRead_of_children_eq_nil {e : Element} (he : e.IsOpen) (hchildren : e.children = []) :
    e.toNode.all Node.isRead = true := by
  rw [Element.toNode, hchildren]
  exact Node.all_element_iff.2 ⟨Bool.and_eq_true_iff.2
    ⟨Node.isReadable_element_iff.2 ⟨he.name, he.attributes, .inl rfl⟩, rfl⟩, by simp⟩

/-- One event keeps the invariant. -/
theorem isSound_step (hd : d.IsSound) {event : Event} (hevent : event.isReadable = true)
    {names : List String} (hnames : openedAfter d.openNames event = .ok names) {d' : Draft}
    (h : d.step event = .ok d') : d'.IsSound := by
  cases takes_of_step h with
  | startTag hattributes =>
    exact ⟨hd.prolog, hd.root,
      List.forall_mem_cons.2 ⟨isOpen_of_attributes hevent hattributes, hd.opened⟩⟩
  | emptyTag hattributes hadd =>
    exact isSound_addElement hd
      (all_isRead_of_children_eq_nil (isOpen_of_attributes hevent hattributes) rfl) hadd
  | @endTag _ innermost outer hopened _ hadd =>
    have helements := hd.opened
    rw [hopened] at helements
    obtain ⟨hinnermost, houter⟩ := List.forall_mem_cons.1 helements
    have hsound : IsSound { d with opened := outer } := ⟨hd.prolog, hd.root, houter⟩
    simp only [openedAfter, openNames, hopened, List.map_cons] at hnames
    split at hnames
    · next hname =>
      exact isSound_addElement hsound
        (Element.all_isRead_close hinnermost (hname ▸ hevent)) hadd
    · cases hnames
  | text _ | reference _ => exact isSound_addContent hd rfl
  | cdata content => exact isSound_addContent hd (Bool.and_eq_true_iff.2 ⟨hevent, rfl⟩)
  | comment content => exact isSound_addComment hd (by simpa [Event.isReadable] using hevent)
  | instruction | doctype => exact hd

/-- What every event keeps holds of the draft at the end. -/
theorem exists_finish_of_readOn {P : Draft → Prop}
    (hstep : ∀ {d : Draft} {event : Event} {names : List String} {d' : Draft}, P d →
      event.isReadable = true → openedAfter d.openNames event = .ok names →
      d.step event = .ok d' → P d')
    {cs : List Char} {document : Document} (hd : P d) (h : d.readOn cs = .ok document) :
    ∃ last : Draft, P last ∧ last.finish = .ok document := by
  induction hlength : cs.length using Nat.strongRecOn generalizing d cs with
  | ind length ih =>
    rw [readOn_eq] at h
    split at h
    · exact ⟨d, hd, h⟩
    · cases h
    · next event rest hnext =>
      split at h
      · cases h
      · next names hnames =>
        obtain ⟨d', hd', h⟩ := exists_of_bind_eq_ok h
        exact ih _ (hlength ▸ length_lt_of_next hnext)
          (hstep hd (isReadable_of_next hnext) hnames hd') h rfl

end Draft

/-! ## Documents -/

namespace Document

/-- The document is as the reader leaves it. -/
structure IsRead (d : Document) : Prop where
  prolog : ∀ node ∈ d.prolog, node.isComment = true ∧ node.isReadable = true
  root : d.root.toNode.all Node.isRead = true

theorem isRead_of_parse {s : String} {d : Document} (h : Document.parse s = .ok d) : d.IsRead := by
  have hstart : ({} : Draft).IsSound := ⟨by simp, by simp, by simp⟩
  obtain ⟨last, hlast, hfinish⟩ := Draft.exists_finish_of_readOn
    (fun hd hevent hnames hstep => Draft.isSound_step hd hevent hnames hstep) hstart h
  unfold Draft.finish at hfinish
  split at hfinish
  · cases hfinish
  · cases hfinish
  · next root _ hroot =>
    cases hfinish
    exact ⟨hlast.prolog, hlast.root root hroot⟩

theorem IsRead.isNormal {d : Document} (h : d.IsRead) : d.isNormal = true :=
  Node.all_of_imp (fun _ hnode => (Bool.and_eq_true_iff.1 hnode).2) h.root

theorem IsRead.all_isReadable {d : Document} (h : d.IsRead) :
    d.root.toNode.all Node.isReadable = true :=
  Node.all_of_imp (fun _ hnode => (Bool.and_eq_true_iff.1 hnode).1) h.root

theorem IsRead.isLegible_prolog {d : Document} (h : d.IsRead) :
    d.prolog.all (fun node => node.isComment && node.isLegible) = true := by
  refine List.all_eq_true.2 fun node hnode => ?_
  obtain ⟨hcomment, hreadable⟩ := h.prolog node hnode
  obtain ⟨content, rfl⟩ := Node.isComment_iff.1 hcomment
  exact Bool.and_eq_true_iff.2 ⟨hcomment, Node.isLegible_of_holds hreadable rfl⟩

/-- A document that was read is legible if its tags hold. -/
theorem IsRead.isLegible {d : Document} (h : d.IsRead)
    (hholds : d.root.toNode.all Node.holds = true) : d.isLegible = true := by
  refine Bool.and_eq_true_iff.2 ⟨h.isLegible_prolog, ?_⟩
  refine Node.all_of_imp (fun node hnode => ?_) (Node.all_and h.all_isReadable hholds)
  obtain ⟨hreadable, hholds⟩ := Bool.and_eq_true_iff.1 hnode
  exact Node.isLegible_of_holds hreadable hholds

end Document

end ApiDocs.Xml
