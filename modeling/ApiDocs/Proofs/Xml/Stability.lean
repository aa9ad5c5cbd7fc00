import ApiDocs.Proofs.Xml.ReadTree

/-!
# Stability of written documents

A document that was read is written and read back as itself exactly if its tags hold. For one
direction, legible documents are read back. For the other, the reader never takes back a tag: the
tags that it has read, each with its name and attributes, only grow in number. The first written tag
that does not hold is read as something else, and so is the document.
-/

namespace ApiDocs.Xml

namespace Node

/-- The names and attributes of the elements of a node, in document order. -/
def heads : Node → List (String × List Attribute)
  | .element name attributes children => (name, attributes) :: children.flatMap heads
  | _ => []

theorem heads_element (name : String) (attributes : List Attribute) (children : List Node) :
    (element name attributes children).heads = (name, attributes) :: children.flatMap heads := by
  rw [heads]

theorem heads_of_element?_eq_none {node : Node} (h : node.element? = none) : node.heads = [] := by
  cases node with
  | element => cases h
  | _ => simp [heads]

theorem flatMap_heads_push (nodes : List Node) (node : Node) :
    (push nodes node).flatMap heads = nodes.flatMap heads ++ node.heads := by
  cases node with
  | text content =>
    induction nodes with
    | nil => by_cases h : content = "" <;> simp [push, h, heads]
    | cons child rest ih =>
      rcases rest with _ | ⟨next, rest⟩
      · cases child <;> simp [push, heads]
      · rw [push_cons_cons, List.flatMap_cons, ih, ← List.append_assoc, ← List.flatMap_cons]
  | _ => rw [push_of_not_isText rfl, List.flatMap_append, List.flatMap_singleton]

theorem flatMap_heads_filter (nodes : List Node) :
    (nodes.filter (! ·.isIndentation)).flatMap heads = nodes.flatMap heads := by
  induction nodes with
  | nil => rfl
  | cons node rest ih =>
    cases hlayout : node.isIndentation with
    | false => simp [hlayout, ih]
    | true =>
      have hnode : node.heads = [] := by
        cases node with
        | text content => simp [heads]
        | _ => cases hlayout
      simp [hlayout, hnode, ih]

end Node

/-- The names and attributes of an element and of the elements inside, in document order. -/
def Element.heads (e : Element) : List (String × List Attribute) :=
  e.toNode.heads

theorem Element.heads_eq (e : Element) :
    e.heads = (e.name, e.attributes) :: e.children.flatMap Node.heads :=
  Node.heads_element _ _ _

namespace Draft

variable {d : Draft}

/-- The tags that the draft has taken, in order. -/
def heads (d : Draft) : List (String × List Attribute) :=
  d.root.toList.flatMap Element.heads ++ d.opened.reverse.flatMap Element.heads

theorem heads_addContent (hopened : d.opened ≠ []) (node : Node) :
    (d.addContent node).heads = d.heads ++ node.heads := by
  rcases d with ⟨_ | ⟨innermost, outer⟩, prolog, root⟩
  · exact absurd rfl hopened
  · simp [addContent, heads, Element.heads_eq, Element.push, Node.flatMap_heads_push]

theorem heads_addContent_of_element?_eq_none {node : Node} (h : node.element? = none) :
    (d.addContent node).heads = d.heads := by
  by_cases hopened : d.opened = []
  · simp [addContent, hopened]
  · rw [heads_addContent hopened, Node.heads_of_element?_eq_none h, List.append_nil]

theorem heads_addComment (content : String) : (d.addComment content).heads = d.heads := by
  unfold addComment
  split
  · rfl
  · rfl
  · exact heads_addContent_of_element?_eq_none rfl

theorem heads_addElement {d' : Draft} {e : Element} (h : d.addElement e = .ok d') :
    d'.heads = d.heads ++ e.heads := by
  unfold addElement at h
  split at h
  · next hopened hroot =>
    cases h
    simp [heads, hopened, hroot]
  · cases h
  · next hopened =>
    cases h
    exact heads_addContent (by simp [hopened]) e.toNode

theorem heads_open (e : Element) (he : e.children = []) :
    heads { d with opened := e :: d.opened } = d.heads ++ [(e.name, e.attributes)] := by
  simp [heads, Element.heads_eq, he]

/-- A step takes the tag that its event begins, and takes nothing back. -/
theorem heads_step {event : Event} {d' : Draft} (h : d.step event = .ok d') :
    d'.heads = d.heads ++ event.head?.toList := by
  cases takes_of_step h with
  | startTag hattributes =>
    rw [heads_open _ rfl, Event.head?, hattributes]
    rfl
  | emptyTag hattributes hadd =>
    rw [heads_addElement hadd, Element.heads_eq, Event.head?, hattributes]
    rfl
  | endTag name hopened hadd =>
    rw [heads_addElement hadd]
    simp [heads, hopened, Event.head?, Element.heads_eq, Element.dropIndentation,
      Node.flatMap_heads_filter]
  | text _ | reference _ | cdata _ =>
    rw [heads_addContent_of_element?_eq_none rfl]
    simp [Event.head?]
  | comment content =>
    rw [heads_addComment]
    simp [Event.head?]
  | instruction | doctype => simp [Event.head?]

/-- All tags that a draft has taken are in the document that is read from it on. -/
theorem heads_prefix_of_readOn {cs : List Char} {document : Document}
    (h : d.readOn cs = .ok document) : d.heads <+: document.root.heads := by
  obtain ⟨last, hlast, hfinish⟩ := exists_finish_of_readOn (P := fun last => d.heads <+: last.heads)
    (fun hd _ _ hstep => hd.trans ⟨_, (heads_step hstep).symm⟩) (List.prefix_refl d.heads) h
  unfold finish at hfinish
  split at hfinish
  · cases hfinish
  · cases hfinish
  · next root hopened hroot =>
    cases hfinish
    simpa [heads, hopened, hroot] using hlast

/-! ## Written tags that were read -/

theorem eq_of_isPrefix_concat {α : Type} {xs zs : List α} {x y : α}
    (hx : xs ++ [x] <+: zs) (hy : xs ++ [y] <+: zs) : x = y := by
  have hxy := List.prefix_of_prefix_length_le hx hy (by simp)
  simpa using hxy.eq_of_length (by simp)

/-- If a document has the tag that was written at its place, then that is the tag that was read
there. -/
theorem head?_of_readOn_tag {name : String} (hname : isReadableName name = true)
    {attributes : List Attribute} {tail : List Char} (htail : tail ≠ [])
    (hhead : tail.head?.any (['!', '?', '/'].contains ·) = false) {document : Document}
    (h : d.readOn ('<' :: (tagChars name attributes ++ tail)) = .ok document)
    (hheads : d.heads ++ [(name, attributes)] <+: document.root.heads) :
    ∃ content after, cutTag? none (tagChars name attributes ++ tail) = some (content, after) ∧
      (Event.ofTag content).head? = some (name, attributes) := by
  rw [readOn_eq, next_tag hname attributes htail hhead] at h
  rcases hcut : cutTag? none (tagChars name attributes ++ tail) with _ | ⟨content, after⟩
  · simp [hcut, Front.ofCut] at h
  · simp only [hcut, Front.ofCut] at h
    refine ⟨content, after, rfl, ?_⟩
    split at h
    · cases h
    · obtain ⟨d', hstep, h⟩ := exists_of_bind_eq_ok h
      have hread := heads_prefix_of_readOn h
      rw [heads_step hstep] at hread
      rcases hfound : (Event.ofTag content).head? with _ | found
      · -- a tag without readable attributes is not taken
        unfold Event.ofTag at hstep hfound
        split at hstep
        · cases takes_of_step hstep with
          | emptyTag hattributes _ => simp_all [Event.head?, Except.toOption]
        · cases takes_of_step hstep with
          | startTag hattributes => simp_all [Event.head?, Except.toOption]
      · rw [hfound] at hread
        rw [eq_of_isPrefix_concat hread hheads]

end Draft

namespace Node

theorem isLegible_of_all {node : Node} (hread : node.all isRead = true)
    (hholds : node.all holds = true) : node.all isLegible = true := by
  refine all_of_imp (fun node h => ?_) (all_and hread hholds)
  obtain ⟨hread, hholds⟩ := Bool.and_eq_true_iff.1 h
  exact isLegible_of_holds (Bool.and_eq_true_iff.1 hread).1 hholds

theorem norm_of_all_isRead {node : Node} (h : node.all isRead = true) : node.norm = node :=
  norm_of_all_isTidy (all_of_imp (fun _ hnode => (Bool.and_eq_true_iff.1 hnode).2) h)

end Node

namespace Draft

open Node

mutual

/-- If a document has the tags of a node where that node was written, the tags hold. -/
theorem holds_of_readOn_chars (node : Node) (hread : node.all isRead = true) {d : Draft}
    (depth : Nat) (indented : Bool) (rest : List Char) {document : Document}
    (h : d.readOn (node.chars depth indented ++ rest) = .ok document)
    (hheads : d.heads ++ node.heads <+: document.root.heads) : node.all holds = true := by
  match node with
  | .element name attributes children =>
    obtain ⟨hnode, hchildren⟩ := Bool.and_eq_true_iff.1 hread
    obtain ⟨hname, hreadable, hbody⟩ :=
      isReadable_element_iff.1 (Bool.and_eq_true_iff.1 hnode).1
    rw [heads_element] at hheads
    have hhead : d.heads ++ [(name, attributes)] <+: document.root.heads := by
      rw [List.append_cons] at hheads
      exact (List.prefix_append _ _).trans hheads
    unfold chars at h
    cases hempty : children.isEmpty with
    | true =>
      obtain rfl := List.isEmpty_iff.1 hempty
      simp only [List.isEmpty_nil, if_true, List.cons_append, List.append_assoc,
        List.nil_append] at h
      obtain ⟨content, after, hcut, hfound⟩ :=
        head?_of_readOn_tag hname (by simp) (by simp) h hhead
      exact Bool.and_eq_true_iff.2 ⟨tagHolds_of_emptyTag hreadable hcut hfound, rfl⟩
    | false =>
      simp only [hempty, Bool.false_eq_true, if_false, List.cons_append, List.append_assoc,
        List.nil_append] at h
      obtain ⟨content, after, hcut, hfound⟩ :=
        head?_of_readOn_tag hname (by simp) (by simp) h hhead
      -- the first tag holds, so what is read next is the written children
      have hholds := tagHolds_of_startTag hreadable hempty hcut hfound
      rw [readOn_startTag hname hreadable hempty hholds] at h
      refine Bool.and_eq_true_iff.2 ⟨hholds, ?_⟩
      refine holds_of_readOn_charsList children hchildren (by simp) _ _ _ h ?_
      rwa [heads_open _ rfl, ← List.append_cons]
  | .text _ | .cdata _ | .comment _ => rfl

theorem holds_of_readOn_charsList (nodes : List Node) (hread : allInList isRead nodes = true)
    {d : Draft} (hopened : d.opened ≠ []) (depth : Nat) (indented : Bool) (rest : List Char)
    {document : Document}
    (h : d.readOn (charsList depth indented nodes ++ rest) = .ok document)
    (hheads : d.heads ++ nodes.flatMap Node.heads <+: document.root.heads) :
    allInList holds nodes = true := by
  match nodes with
  | [] => rfl
  | node :: others =>
    obtain ⟨hnode, hothers⟩ := Bool.and_eq_true_iff.1 hread
    have hgoon : ∀ d : Draft, d.opened ≠ [] →
        d.readOn (node.chars depth indented ++ (charsList depth indented others ++ rest)) =
          .ok document →
        d.heads ++ (node :: others).flatMap Node.heads <+: document.root.heads →
        allInList holds (node :: others) = true := by
      intro d hd h hheads
      rw [List.flatMap_cons, ← List.append_assoc] at hheads
      have hholds := holds_of_readOn_chars node hnode depth indented _ h
        ((List.prefix_append _ _).trans hheads)
      -- a node whose tags hold is read as itself, and the others are left
      rw [readOn_chars node (isLegible_of_all hnode hholds), norm_of_all_isRead hnode,
        addNode_of_opened hd] at h
      refine Bool.and_eq_true_iff.2 ⟨hholds, ?_⟩
      refine holds_of_readOn_charsList others hothers (opened_addContent_ne_nil hd node) depth
        indented rest h ?_
      rwa [heads_addContent hd]
    rw [charsList, List.append_assoc, List.append_assoc] at h
    cases indented with
    | true =>
      rw [if_pos rfl, readOn_lineBreak] at h
      refine hgoon _ (opened_addContent_ne_nil hopened _) h ?_
      rwa [heads_addContent_of_element?_eq_none rfl]
    | false => exact hgoon d hopened h hheads

end

end Draft

/-! ## Documents that were read -/

namespace Document

/-- The comments in front of the root are read back, whatever the root is. -/
theorem parse_render_eq_readOn {d : Document} (h : d.IsRead) :
    Document.parse d.render =
      Draft.readOn ⟨[], d.prolog, none⟩ (d.root.toNode.chars 0 true ++ ['\n']) := by
  have hcomments : d.prolog.all Node.isComment = true :=
    List.all_eq_true.2 fun node hnode => (h.prolog node hnode).1
  rw [Draft.parse_eq_readOn, dropByteOrderMark_render hcomments, toList_render,
    readOn_prolog h.isLegible_prolog, List.nil_append]

/-- A document that was read is read back from its written form as itself exactly if the first tag
of each element ends where it was meant to end. -/
theorem parse_render_of_parse {s : String} {d : Document} (h : Document.parse s = .ok d) :
    Document.parse d.render = .ok d ↔ d.root.toNode.all Node.holds = true := by
  have hread := isRead_of_parse h
  constructor
  · intro hstable
    rw [parse_render_eq_readOn hread] at hstable
    exact Draft.holds_of_readOn_chars d.root.toNode hread.root 0 true _ hstable
      (List.prefix_refl _)
  · intro hholds
    rw [parse_render_of_isLegible (hread.isLegible hholds), norm_eq_self_iff.2 hread.isNormal]

/-- Keys that hold quotes do no harm if the quotes pair up in the written tag. -/
theorem parse_render_pairedQuotes :
    let d : Document := ⟨[], ⟨"r", [], [.element "x" [⟨"a'", "1"⟩, ⟨"b'", ">"⟩] [], .text "t"]⟩⟩
    Document.parse "<r><x a'='1' b'=\">\"/>t</r>" = .ok d ∧ d.root.toNode.all Node.holds = true ∧
      Document.parse d.render = .ok d := by
  intro d
  have hread : Document.parse "<r><x a'='1' b'=\">\"/>t</r>" = .ok d := by decide +kernel
  have hholds : d.root.toNode.all Node.holds = true := by decide
  exact ⟨hread, hholds, (parse_render_of_parse hread).2 hholds⟩

/-- The quotes of the keys pair up otherwise once the values are written in double quotes, and the
key in front of the last one ends the tag. -/
theorem parse_render_brokenTag :
    let read : Document := ⟨[], ⟨"r", [],
      [.element "x" [⟨"a\"", "\""⟩, ⟨"b\"", "1"⟩, ⟨"/>", "v"⟩, ⟨"'c", "1"⟩] []]⟩⟩
    let again : Document := ⟨[], ⟨"r", [],
      [.element "x" [⟨"a\"", "\""⟩, ⟨"b\"", "1"⟩] [], .text "=\"v\" 'c=\"1\" />\n"]⟩⟩
    Document.parse "<r><x a\"='\"' b\"=\"1\" />='v' 'c=\"1\"/></r>" = .ok read ∧
      Document.parse read.render = .ok again ∧ again ≠ read ∧ again.render ≠ read.render := by
  intro read again
  have hread : Document.parse "<r><x a\"='\"' b\"=\"1\" />='v' 'c=\"1\"/></r>" = .ok read := by decide +kernel
  have hagain : Document.parse read.render = .ok again := by decide +kernel
  exact ⟨hread, hagain, by decide, by decide⟩

end Document

end ApiDocs.Xml
