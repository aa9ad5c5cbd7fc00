import ApiDocs.Proofs.Xml.WrittenTag

/-!
# Written trees

The characters that are written for a tree, and the draft that reading them leaves behind. Each
written node is read as that node in normal form, put where the draft stands: the line breaks that
were written between children are texts that closing the element around them takes away again.
-/

namespace ApiDocs.Xml

open Text

/-- The mark stands somewhere in the text. -/
def occurs (mark : List Char) : List Char → Bool
  | [] => mark.isEmpty
  | c :: rest => mark.isPrefixOf (c :: rest) || occurs mark rest

/-- The text holds the mark that ends a CDATA section. -/
def endsCData (content : String) : Bool :=
  occurs "]]>".toList content.toList

/-- The text holds the mark that ends a comment. -/
def endsComment (content : String) : Bool :=
  occurs "-->".toList content.toList

namespace Node

mutual

def chars (depth : Nat) (indented : Bool) : Node → List Char
  | .element name attributes children =>
    if children.isEmpty then '<' :: (tagChars name attributes ++ [' ', '/', '>'])
    else
      let indented := indented && !children.any isTextual
      '<' :: (tagChars name attributes ++ '>' :: (charsList (depth + 1) indented children ++
        ((if indented then (lineBreak depth).toList else []) ++
          '<' :: '/' :: (name.toList ++ ['>']))))
  | .text content => content.toList.flatMap textEscape
  | .cdata content => "<![CDATA[".toList ++ (content.toList ++ "]]>".toList)
  | .comment content => "<!--".toList ++ (content.toList ++ "-->".toList)

def charsList (depth : Nat) (indented : Bool) : List Node → List Char
  | [] => []
  | node :: rest =>
    (if indented then (lineBreak depth).toList else []) ++
      (node.chars depth indented ++ charsList depth indented rest)

end

/-- The tree can be read back from its written form: its names and keys are readable, its tags
hold, and its comments and CDATA sections end where they were meant to end. -/
def isLegible : Node → Bool
  | .element name attributes children =>
    isReadableName name && decide (AreReadable attributes) && tagHolds name attributes children &&
      (children.isEmpty || isTagBody none name.toList)
  | .text _ => true
  | .cdata content => ! endsCData content
  | .comment content => ! endsComment content

theorem isLegible_element_iff {name : String} {attributes : List Attribute}
    {children : List Node} :
    (element name attributes children).isLegible = true ↔
      isReadableName name = true ∧ AreReadable attributes ∧
        tagHolds name attributes children = true ∧
        (children.isEmpty = true ∨ isTagBody none name.toList = true) := by
  simp [isLegible, and_assoc]

/-! ## What is written -/

theorem toList_foldl_render (attributes : List Attribute) (out : String) :
    (attributes.foldl (fun out a => out ++ a.render) out).toList =
      out.toList ++ attributes.flatMap Attribute.chars := by
  induction attributes generalizing out with
  | nil => simp
  | cons a attributes ih =>
    rw [List.foldl_cons, ih, String.toList_append, Attribute.toList_render, List.flatMap_cons,
      List.append_assoc]

theorem write_element (depth : Nat) (indented : Bool) (out : String) (name : String)
    (attributes : List Attribute) (children : List Node) :
    (element name attributes children).write depth indented out =
      let out := attributes.foldl (fun out a => out ++ a.render) (out ++ "<" ++ name)
      if children.isEmpty then out ++ " />"
      else
        let indented := indented && !children.any isTextual
        let out := writeList (depth + 1) indented (out ++ ">") children
        let out := if indented then out ++ lineBreak depth else out
        out ++ "</" ++ name ++ ">" := by
  rw [write]

mutual

theorem toList_write (node : Node) (depth : Nat) (indented : Bool) (out : String) :
    (node.write depth indented out).toList = out.toList ++ node.chars depth indented := by
  match node with
  | .element name attributes children =>
    have hchildren := toList_writeList children (depth + 1) (indented && !children.any isTextual)
    rw [write_element]
    unfold chars
    cases hempty : children.isEmpty with
    | true => simp [toList_foldl_render, tagChars]
    | false =>
      cases hindented : (indented && !children.any isTextual) with
      | true =>
        rw [hindented] at hchildren
        simp [hchildren, toList_foldl_render, tagChars]
      | false =>
        rw [hindented] at hchildren
        simp [hchildren, toList_foldl_render, tagChars]
  | .text content =>
    unfold write chars
    simp [escaped]
  | .cdata content =>
    unfold write chars
    simp
  | .comment content =>
    unfold write chars
    simp

theorem toList_writeList (nodes : List Node) (depth : Nat) (indented : Bool) (out : String) :
    (writeList depth indented out nodes).toList = out.toList ++ charsList depth indented nodes := by
  match nodes with
  | [] => simp [writeList, charsList]
  | node :: rest =>
    rw [writeList, charsList, toList_writeList rest, toList_write node]
    cases indented <;> simp

end

end Node

/-! ## Marks -/

/-- A text without the mark is cut off at the mark behind it. -/
theorem cutAt?_of_not_occurs {a : Char} (ha : a ≠ '>') {content : List Char}
    (h : occurs [a, a, '>'] content = false) (rest : List Char) :
    cutAt? [a, a, '>'] (content ++ a :: a :: '>' :: rest) = some (content, rest) := by
  induction content with
  | nil => simp [cutAt?, List.isPrefixOf]
  | cons c content ih =>
    simp only [occurs, Bool.or_eq_false_iff] at h
    have hfront : [a, a, '>'].isPrefixOf (c :: content ++ a :: a :: '>' :: rest) = false := by
      rcases content with _ | ⟨x, _ | ⟨y, content⟩⟩
      · simp [List.isPrefixOf, ha.symm]
      · simp [List.isPrefixOf, ha.symm]
      · simpa [List.isPrefixOf] using h.1
    rw [List.cons_append] at hfront ⊢
    rw [cutAt?, hfront, ih h.2]
    rfl

theorem next_comment {content : String} (h : endsComment content = false) (rest : List Char) :
    next ("<!--".toList ++ (content.toList ++ ("-->".toList ++ rest))) =
      .event (.comment content) rest := by
  have hcut : cutAt? ['-', '-', '>'] (content.toList ++ '-' :: '-' :: '>' :: rest) =
      some (content.toList, rest) := cutAt?_of_not_occurs (by decide) h rest
  change nextDeclaration ('-' :: '-' :: (content.toList ++ '-' :: '-' :: '>' :: rest)) = _
  unfold nextDeclaration
  change Front.ofCut _ _ (cutAt? ['-', '-', '>'] _) = _
  rw [hcut]
  simp [Front.ofCut]

theorem next_cdata {content : String} (h : endsCData content = false) (rest : List Char) :
    next ("<![CDATA[".toList ++ (content.toList ++ ("]]>".toList ++ rest))) =
      .event (.cdata content) rest := by
  have hcut : cutAt? [']', ']', '>'] (content.toList ++ ']' :: ']' :: '>' :: rest) =
      some (content.toList, rest) := cutAt?_of_not_occurs (by decide) h rest
  change nextDeclaration
    ('[' :: 'C' :: 'D' :: 'A' :: 'T' :: 'A' :: '[' :: (content.toList ++ ']' :: ']' :: '>' :: rest)) = _
  unfold nextDeclaration
  change Front.ofCut _ _ (cutAt? [']', ']', '>'] _) = _
  rw [hcut]
  simp [Front.ofCut]

/-! ## Line breaks -/

theorem toList_lineBreak (depth : Nat) :
    (lineBreak depth).toList = '\n' :: List.replicate (2 * depth) ' ' := by
  have hpush : ∀ count : Nat,
      ("\n".pushn ' ' count).toList = '\n' :: List.replicate count ' ' := by
    intro count
    induction count with
    | zero => rfl
    | succ count ih =>
      rw [String.pushn_eq_repeat_push] at ih ⊢
      rw [Nat.repeat, String.toList_push, ih, List.replicate_succ', List.cons_append]
  exact hpush _

namespace Node

/-- The text only lays out what is around it, or says nothing at all. -/
def isLayout (content : String) : Bool :=
  content = "" || (text content).isIndentation

theorem isLayout_lineBreak (depth : Nat) : isLayout (lineBreak depth) = true := by
  have hblank : ∀ c ∈ (lineBreak depth).toList, isBlank c = true := by
    intro c hc
    rw [toList_lineBreak, List.mem_cons, List.mem_replicate] at hc
    rcases hc with rfl | ⟨-, rfl⟩ <;> decide
  have hbreak : '\n' ∈ (lineBreak depth).toList := by
    rw [toList_lineBreak]
    exact List.mem_cons_self
  simp only [isLayout, isIndentation, Bool.or_eq_true, Bool.and_eq_true, List.all_eq_true]
  exact .inr ⟨by simpa using hbreak, hblank⟩

theorem tidy_cons_of_not_isText {node : Node} (h : node.isText = false) (rest : List Node) :
    tidy (node :: rest) = node :: tidy rest := by
  rw [tidy, joinTexts_cons_of_not_isText h, List.filter_cons_of_pos, tidy]
  cases node <;> simp_all [isText, isIndentation]

/-- Layout in front of a node that is no text vanishes. -/
theorem tidy_layout_cons {content : String} (hlayout : isLayout content = true) {node : Node}
    (h : node.isText = false) (rest : List Node) :
    tidy (.text content :: node :: rest) = node :: tidy rest := by
  rw [← tidy_cons_of_not_isText h]
  by_cases hempty : content = ""
  · rw [tidy, joinTexts_text, hempty, joinText_empty, tidy]
  · have hindentation : (text content).isIndentation = true := by
      simpa [isLayout, hempty] using hlayout
    rw [tidy, joinTexts_text, joinTexts_cons_of_not_isText h,
      joinText_of_not_isText hempty (by simpa using h),
      List.filter_cons_of_neg (by simp [hindentation]), tidy, joinTexts_cons_of_not_isText h]

theorem tidy_layout {content : String} (hlayout : isLayout content = true) :
    tidy [.text content] = [] := by
  by_cases hempty : content = ""
  · rw [tidy, joinTexts_text, hempty, joinText_empty, joinTexts_nil, List.filter_nil]
  · have hindentation : (text content).isIndentation = true := by
      simpa [isLayout, hempty] using hlayout
    rw [tidy, joinTexts_text, joinTexts_nil, joinText_of_not_isText hempty rfl,
      List.filter_cons_of_neg (by simp [hindentation]), List.filter_nil]

theorem isText_of_isTextual {node : Node} (h : node.isTextual = false) : node.isText = false := by
  cases node <;> simp_all [isTextual, isText]

end Node

/-! ## Reading written trees -/

namespace Draft

theorem readOn_textChars (d : Draft) {cs : List Char} (h : ∀ c ∈ cs, isTextChar c = true)
    (rest : List Char) :
    d.readOn (cs ++ rest) = (d.addContent (.text (String.ofList cs))).readOn rest := by
  induction cs generalizing d with
  | nil => simp
  | cons c cs ih =>
    obtain ⟨hc, hcs⟩ := List.forall_mem_cons.1 h
    rw [List.cons_append, readOn_textChar hc, ih _ hcs, addContent_addContent_text,
      ← String.ofList_cons]

theorem readOn_lineBreak (d : Draft) (depth : Nat) (rest : List Char) :
    d.readOn ((lineBreak depth).toList ++ rest) =
      (d.addContent (.text (lineBreak depth))).readOn rest := by
  rw [readOn_textChars d, String.ofList_toList]
  intro c hc
  rw [toList_lineBreak, List.mem_cons, List.mem_replicate] at hc
  rcases hc with rfl | ⟨-, rfl⟩ <;> decide

theorem opened_addContent_ne_nil {d : Draft} (h : d.opened ≠ []) (node : Node) :
    (d.addContent node).opened ≠ [] := by
  rcases d with ⟨_ | ⟨innermost, outer⟩, prolog, root⟩
  · exact absurd rfl h
  · simp [addContent]

theorem addNode_of_opened {d : Draft} (h : d.opened ≠ []) (node : Node) :
    d.addNode node = .ok (d.addContent node) := by
  rcases d with ⟨_ | ⟨innermost, outer⟩, prolog, root⟩
  · exact absurd rfl h
  · cases node <;> rfl

theorem foldl_addContent (innermost : Element) (outer : List Element) (prolog : List Node)
    (root : Option Element) (nodes : List Node) :
    nodes.foldl addContent ⟨innermost :: outer, prolog, root⟩ =
      ⟨innermost.append nodes :: outer, prolog, root⟩ := by
  induction nodes generalizing innermost with
  | nil => rfl
  | cons node rest ih =>
    rw [List.foldl_cons]
    exact ih (innermost.push node)

theorem addContent_foldl (d : Draft) (nodes : List Node) (node : Node) :
    (nodes.foldl addContent d).addContent node = (nodes ++ [node]).foldl addContent d := by
  rw [List.foldl_append]
  rfl

/-- Closing an element that holds what was written for its children. -/
theorem dropIndentation_append (name : String) (attributes : List Attribute) (nodes : List Node) :
    (Element.append nodes ⟨name, attributes, []⟩).dropIndentation =
      ⟨name, attributes, Node.tidy nodes⟩ := by
  simp only [Element.dropIndentation, Element.append, Node.tidy]
  rw [← Node.merge_eq_joinTexts]
  rfl

theorem readOn_startTag {name : String} (hname : isReadableName name = true)
    {attributes : List Attribute} (hreadable : AreReadable attributes) {children : List Node}
    (hchildren : children.isEmpty = false) (hholds : tagHolds name attributes children = true)
    (d : Draft) (rest : List Char) :
    d.readOn ('<' :: (tagChars name attributes ++ '>' :: rest)) =
      Draft.readOn { d with opened := ⟨name, attributes, []⟩ :: d.opened } rest := by
  obtain ⟨tag, rfl, hattributes, hnext⟩ := next_startTag hname hreadable hchildren hholds rest
  refine readOn_of_next hnext rfl ?_
  simp only [step, elementOfTag, hattributes]
  rfl

theorem readOn_emptyTag {name : String} (hname : isReadableName name = true)
    {attributes : List Attribute} (hreadable : AreReadable attributes)
    (hholds : tagHolds name attributes [] = true) (d : Draft) (rest : List Char) :
    d.readOn ('<' :: (tagChars name attributes ++ ' ' :: '/' :: '>' :: rest)) =
      (d.addElement ⟨name, attributes, []⟩).bind (·.readOn rest) := by
  obtain ⟨tag, rfl, hattributes, hnext⟩ := next_emptyTag hname hreadable hholds rest
  rw [readOn_eq, hnext]
  simp only [openedAfter, step, elementOfTag, hattributes]
  rfl

theorem readOn_endTag {name : String} (hname : isReadableName name = true)
    (hbody : isTagBody none name.toList = true) {e : Element} (he : e.name = name)
    (outer : List Element) (prolog : List Node) (root : Option Element) (rest : List Char) :
    Draft.readOn ⟨e :: outer, prolog, root⟩ ('<' :: '/' :: (name.toList ++ '>' :: rest)) =
      (Draft.addElement ⟨outer, prolog, root⟩ e.dropIndentation).bind (·.readOn rest) := by
  rw [readOn_eq, next_endTag hname hbody]
  simp [openedAfter, step, he]

end Draft

end ApiDocs.Xml
