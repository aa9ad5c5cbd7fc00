import ApiDocs.Proofs.Xml.WrittenTree

/-!
# Other layouts

What is written for a document has parts that stay, and gaps between them that only lay it out: in
front of each child and of the end tag of an element that takes several lines, and behind each
comment of the prolog and the root. Whatever layout stands in the gaps, the same document is read,
for a gap is read as a text that has no other text beside it, and is dropped in the end.
-/

namespace ApiDocs.Xml

open Text

/-- A part of what is written for a document. -/
inductive Part where
  | kept (chars : List Char)
  | gap (layout : String)

def Part.chars : Part → List Char
  | .kept chars => chars
  | .gap layout => layout.toList

namespace Node

mutual

/-- The parts of what is written for a node. -/
def parts (depth : Nat) (indented : Bool) : Node → List Part
  | .element name attributes children =>
    if children.isEmpty then [.kept ('<' :: (tagChars name attributes ++ [' ', '/', '>']))]
    else
      let indented := indented && !children.any isTextual
      .kept ('<' :: (tagChars name attributes ++ ['>'])) ::
        (partsOfList (depth + 1) indented children ++
          ((if indented then [.gap (lineBreak depth)] else []) ++
            [.kept ('<' :: '/' :: (name.toList ++ ['>']))]))
  | node => [.kept (node.chars depth indented)]

def partsOfList (depth : Nat) (indented : Bool) : List Node → List Part
  | [] => []
  | node :: rest =>
    (if indented then [.gap (lineBreak depth)] else []) ++
      (node.parts depth indented ++ partsOfList depth indented rest)

end

end Node

/-- The parts of what is written for a document. -/
def Document.parts (d : Document) : List Part :=
  d.prolog.flatMap (fun node => node.parts 0 true ++ [.gap "\n"]) ++
    (d.root.toNode.parts 0 true ++ [.gap "\n"])

/-- The characters of the parts, with other layouts put into the gaps one after the other. Gaps
that are left over stay as they are. -/
def refill : List String → List Part → List Char
  | _, [] => []
  | layouts, .kept chars :: parts => chars ++ refill layouts parts
  | [], .gap layout :: parts => layout.toList ++ refill [] parts
  | layout :: layouts, .gap _ :: parts => layout.toList ++ refill layouts parts

/-- The characters are those of the parts, with any layout in each of the gaps. -/
inductive Relaid : List Part → List Char → Prop where
  | nil : Relaid [] []
  | kept (chars : List Char) {parts : List Part} {cs : List Char} (h : Relaid parts cs) :
      Relaid (.kept chars :: parts) (chars ++ cs)
  | gap (old : String) {layout : String} (hlayout : Node.isLayout layout = true)
      {parts : List Part} {cs : List Char} (h : Relaid parts cs) :
      Relaid (.gap old :: parts) (layout.toList ++ cs)

/-- The characters are those of the parts, and what stands in the gaps is layout. -/
structure Spells (parts : List Part) (cs : List Char) : Prop where
  chars : parts.flatMap Part.chars = cs
  layout : ∀ layout, Part.gap layout ∈ parts → Node.isLayout layout = true

/-! ## Parts that are relaid -/

namespace Spells

theorem nil : Spells [] [] := ⟨rfl, by simp⟩

theorem kept (chars : List Char) : Spells [.kept chars] chars := ⟨by simp [Part.chars], by simp⟩

theorem gap {layout : String} (h : Node.isLayout layout = true) :
    Spells [.gap layout] layout.toList :=
  ⟨by simp [Part.chars], by simpa using h⟩

theorem append {parts others : List Part} {cs ds : List Char} (h : Spells parts cs)
    (h' : Spells others ds) : Spells (parts ++ others) (cs ++ ds) := by
  refine ⟨by rw [List.flatMap_append, h.chars, h'.chars], ?_⟩
  intro layout hmem
  rcases List.mem_append.1 hmem with hfront | hback
  · exact h.layout layout hfront
  · exact h'.layout layout hback

/-- To put layouts into the gaps is to relay the parts. -/
theorem relaid_refill {parts : List Part} {cs : List Char} (h : Spells parts cs)
    {layouts : List String} (hlayouts : ∀ layout ∈ layouts, Node.isLayout layout = true) :
    Relaid parts (refill layouts parts) := by
  have hgaps := h.layout
  clear h
  induction parts generalizing layouts with
  | nil =>
    rw [refill]
    exact .nil
  | cons part parts ih =>
    have hrest : ∀ layout, Part.gap layout ∈ parts → Node.isLayout layout = true :=
      fun layout hmem => hgaps layout (List.mem_cons_of_mem part hmem)
    cases part with
    | kept chars =>
      rw [refill]
      exact .kept chars (ih hlayouts hrest)
    | gap old =>
      cases layouts with
      | nil =>
        rw [refill]
        exact .gap old (hgaps old List.mem_cons_self) (ih hlayouts hrest)
      | cons layout layouts =>
        obtain ⟨hfirst, hothers⟩ := List.forall_mem_cons.1 hlayouts
        rw [refill]
        exact .gap old hfirst (ih hothers hrest)

theorem refill_nil {parts : List Part} {cs : List Char} (h : Spells parts cs) :
    refill [] parts = cs := by
  rw [← h.chars]
  clear h
  induction parts with
  | nil => rfl
  | cons part parts ih =>
    cases part with
    | kept chars => rw [refill, ih, List.flatMap_cons, Part.chars]
    | gap layout => rw [refill, ih, List.flatMap_cons, Part.chars]

theorem relaid {parts : List Part} {cs : List Char} (h : Spells parts cs) : Relaid parts cs := by
  have hnone : ∀ layout ∈ ([] : List String), Node.isLayout layout = true := by simp
  have hrefill := h.relaid_refill hnone
  rwa [h.refill_nil] at hrefill

end Spells

namespace Relaid

/-- Parts side by side are relaid each on their own. -/
theorem of_append {parts others : List Part} {cs : List Char} (h : Relaid (parts ++ others) cs) :
    ∃ front back, cs = front ++ back ∧ Relaid parts front ∧ Relaid others back := by
  induction parts generalizing cs with
  | nil => exact ⟨[], cs, rfl, .nil, h⟩
  | cons part parts ih =>
    cases h with
    | kept chars h =>
      obtain ⟨front, back, rfl, hfront, hback⟩ := ih h
      exact ⟨chars ++ front, back, by rw [List.append_assoc], .kept chars hfront, hback⟩
    | gap old hlayout h =>
      obtain ⟨front, back, rfl, hfront, hback⟩ := ih h
      exact ⟨_, back, by rw [List.append_assoc], .gap old hlayout hfront, hback⟩

theorem of_kept {chars cs : List Char} (h : Relaid [.kept chars] cs) : cs = chars := by
  cases h with
  | kept _ h =>
    cases h
    exact List.append_nil chars

theorem of_gap {old : String} {cs : List Char} (h : Relaid [.gap old] cs) :
    ∃ layout, Node.isLayout layout = true ∧ cs = layout.toList := by
  cases h with
  | gap _ hlayout h =>
    cases h
    exact ⟨_, hlayout, List.append_nil _⟩

end Relaid

/-! ## The parts of a tree -/

namespace Node

theorem spells_lineBreak (depth : Nat) (indented : Bool) :
    Spells (if indented then [.gap (lineBreak depth)] else [])
      (if indented then (lineBreak depth).toList else []) := by
  cases indented with
  | true => exact .gap (isLayout_lineBreak depth)
  | false => exact .nil

mutual

/-- The parts of a node are what is written for it. -/
theorem spells_parts (node : Node) (depth : Nat) (indented : Bool) :
    Spells (node.parts depth indented) (node.chars depth indented) := by
  match node with
  | .element name attributes children =>
    unfold parts chars
    split
    · exact .kept _
    · have hbody := (spells_partsOfList children (depth + 1)
        (indented && !children.any isTextual)).append
        ((spells_lineBreak depth (indented && !children.any isTextual)).append
          (.kept ('<' :: '/' :: (name.toList ++ ['>']))))
      have hwhole := (Spells.kept ('<' :: (tagChars name attributes ++ ['>']))).append hbody
      simpa using hwhole
  | .text _ | .cdata _ | .comment _ =>
    unfold parts
    exact .kept _

theorem spells_partsOfList (nodes : List Node) (depth : Nat) (indented : Bool) :
    Spells (partsOfList depth indented nodes) (charsList depth indented nodes) := by
  match nodes with
  | [] => exact .nil
  | node :: rest =>
    rw [partsOfList, charsList]
    exact (spells_lineBreak depth indented).append
      ((spells_parts node depth indented).append (spells_partsOfList rest depth indented))

end

/-! ## Nodes with layout between them -/

/-- The nodes as they are found, each behind some layout if they are `indented`. -/
inductive Spaced : Bool → List Node → List Node → Prop where
  | nil (indented : Bool) : Spaced indented [] []
  | inline (node : Node) {nodes found : List Node} (h : Spaced false nodes found) :
      Spaced false (node :: nodes) (node :: found)
  | indented {layout : String} (hlayout : isLayout layout = true) (node : Node)
      {nodes found : List Node} (h : Spaced true nodes found) :
      Spaced true (node :: nodes) (.text layout :: node :: found)

theorem Spaced.eq_of_inline {nodes found : List Node} (h : Spaced false nodes found) :
    found = nodes := by
  induction nodes generalizing found with
  | nil =>
    cases h
    rfl
  | cons node nodes ih =>
    cases h with
    | inline _ h => rw [ih h]

/-- Tidying takes away the layout between nodes that are no texts, and the layout behind them. -/
theorem Spaced.tidy_eq {nodes found : List Node} (h : Spaced true nodes found)
    (htexts : nodes.any isText = false) {last : String} (hlast : isLayout last = true) :
    tidy (found ++ [.text last]) = tidy nodes := by
  induction nodes generalizing found with
  | nil =>
    cases h
    exact tidy_layout hlast
  | cons node nodes ih =>
    rw [List.any_cons, Bool.or_eq_false_iff] at htexts
    cases h with
    | indented hlayout _ h =>
      rw [tidy_cons_of_not_isText htexts.1, ← ih h htexts.2]
      exact tidy_layout_cons hlayout htexts.1 _

theorem any_isText_map_norm {nodes : List Node} (h : nodes.any isTextual = false) :
    (nodes.map norm).any isText = false := by
  rw [List.any_map, List.any_eq_false]
  intro node hnode
  have htextual : node.isTextual = false := by
    rw [List.any_eq_false] at h
    simpa using h node hnode
  simp [isText_of_isTextual htextual]

end Node

/-! ## Reading relaid trees -/

namespace Draft

open Node

theorem readOn_layout {layout : String} (h : isLayout layout = true) (d : Draft)
    (rest : List Char) :
    d.readOn (layout.toList ++ rest) = (d.addContent (.text layout)).readOn rest := by
  have hchars : ∀ c ∈ layout.toList, isTextChar c = true := by
    intro c hc
    have hblank : isBlank c = true := by
      simp only [isLayout, isIndentation, Bool.or_eq_true, Bool.and_eq_true, List.all_eq_true,
        decide_eq_true_eq] at h
      rcases h with rfl | ⟨-, hblank⟩
      · simp at hc
      · exact hblank c hc
    have hlt : c ≠ '<' := by
      rintro rfl
      exact absurd hblank (by decide)
    have hamp : c ≠ '&' := by
      rintro rfl
      exact absurd hblank (by decide)
    simp [isTextChar, hlt, hamp]
  rw [readOn_textChars d hchars, String.ofList_toList]

/-- The children of an element are tidied when its end tag is read. -/
theorem readOn_close {name : String} (hname : isReadableName name = true)
    (hbody : isTagBody none name.toList = true) (attributes : List Attribute)
    {children found : List Node} {indented : Bool} (hfound : Spaced indented (children.map norm) found)
    (hindented : indented = true → children.any isTextual = false) {old : String}
    {cs : List Char}
    (hcs : Relaid ((if indented then [.gap old] else []) ++
      [.kept ('<' :: '/' :: (name.toList ++ ['>']))]) cs)
    (d : Draft) (rest : List Char) :
    (found.foldl addContent { d with opened := ⟨name, attributes, []⟩ :: d.opened }).readOn
      (cs ++ rest) =
      (d.addElement ⟨name, attributes, tidy (children.map norm)⟩).bind (·.readOn rest) := by
  obtain ⟨front, back, rfl, hfront, hback⟩ := hcs.of_append
  rw [hback.of_kept, List.append_assoc]
  simp only [List.cons_append, List.append_assoc, List.nil_append]
  cases indented with
  | true =>
    obtain ⟨layout, hlayout, rfl⟩ := hfront.of_gap
    rw [readOn_layout hlayout, addContent_foldl, foldl_addContent,
      readOn_endTag hname hbody rfl, dropIndentation_append,
      hfound.tidy_eq (any_isText_map_norm (hindented rfl)) hlayout]
  | false =>
    cases hfront
    rw [List.nil_append, hfound.eq_of_inline, foldl_addContent,
      readOn_endTag hname hbody rfl, dropIndentation_append]

mutual

/-- Where a legible node was written, that node in normal form is read, whatever layout stands in
its gaps. -/
theorem readOn_relaid (node : Node) (h : node.all isLegible = true) {depth : Nat}
    {indented : Bool} {cs : List Char} (hcs : Relaid (node.parts depth indented) cs) (d : Draft)
    (rest : List Char) :
    d.readOn (cs ++ rest) = (d.addNode node.norm).bind (·.readOn rest) := by
  match node with
  | .element name attributes children =>
    obtain ⟨hlegible, hchildren⟩ := Bool.and_eq_true_iff.1 h
    obtain ⟨hname, hreadable, hholds, hbody⟩ := isLegible_element_iff.1 hlegible
    unfold parts at hcs
    cases hempty : children.isEmpty with
    | true =>
      obtain rfl := List.isEmpty_iff.1 hempty
      rw [List.isEmpty_nil, if_pos rfl] at hcs
      rw [hcs.of_kept]
      simp only [List.cons_append, List.append_assoc, List.nil_append]
      exact readOn_emptyTag hname hreadable hholds d rest
    | false =>
      rw [hempty, if_neg Bool.false_ne_true] at hcs
      cases hcs with
      | kept _ hinside =>
        obtain ⟨front, back, rfl, hfront, hback⟩ := hinside.of_append
        simp only [List.cons_append, List.append_assoc, List.nil_append]
        rw [readOn_startTag hname hreadable hempty hholds]
        obtain ⟨found, hfound, hread⟩ := readOn_relaidList children hchildren hfront
          (d := { d with opened := ⟨name, attributes, []⟩ :: d.opened }) (by simp)
        rw [hread, norm_element]
        have hindented : (indented && !children.any isTextual) = true →
            children.any isTextual = false := by simp
        exact readOn_close hname (hbody.resolve_left (by simp [hempty])) attributes hfound
          hindented hback d rest
  | .text content =>
    unfold parts chars at hcs
    rw [hcs.of_kept, readOn_escaped, String.ofList_toList]
    rfl
  | .cdata content =>
    unfold parts chars at hcs
    rw [hcs.of_kept, List.append_assoc, List.append_assoc]
    exact readOn_of_next (next_cdata (by simpa [all, isLegible] using h) rest) rfl rfl
  | .comment content =>
    unfold parts chars at hcs
    rw [hcs.of_kept, List.append_assoc, List.append_assoc]
    exact readOn_of_next (next_comment (by simpa [all, isLegible] using h) rest) rfl rfl

theorem readOn_relaidList (nodes : List Node) (h : allInList isLegible nodes = true) {depth : Nat}
    {indented : Bool} {cs : List Char} (hcs : Relaid (partsOfList depth indented nodes) cs)
    {d : Draft} (hopened : d.opened ≠ []) :
    ∃ found, Spaced indented (nodes.map norm) found ∧
      ∀ rest, d.readOn (cs ++ rest) = (found.foldl addContent d).readOn rest := by
  match nodes with
  | [] =>
    cases hcs
    exact ⟨[], .nil indented, fun rest => rfl⟩
  | node :: others =>
    obtain ⟨hnode, hothers⟩ := Bool.and_eq_true_iff.1 h
    rw [partsOfList] at hcs
    obtain ⟨space, back, rfl, hspace, hback⟩ := hcs.of_append
    obtain ⟨first, last, rfl, hfirst, hlast⟩ := hback.of_append
    have hgoon : ∀ d : Draft, d.opened ≠ [] → ∃ found, Spaced indented (others.map norm) found ∧
        ∀ rest, d.readOn (first ++ (last ++ rest)) =
          ((node.norm :: found).foldl addContent d).readOn rest := by
      intro d hd
      obtain ⟨found, hfound, hread⟩ := readOn_relaidList others hothers hlast
        (opened_addContent_ne_nil hd node.norm)
      refine ⟨found, hfound, fun rest => ?_⟩
      rw [readOn_relaid node hnode hfirst, addNode_of_opened hd]
      exact hread rest
    cases indented with
    | true =>
      obtain ⟨layout, hlayout, rfl⟩ := hspace.of_gap
      obtain ⟨found, hfound, hread⟩ := hgoon _ (opened_addContent_ne_nil hopened (.text layout))
      refine ⟨_, .indented hlayout node.norm hfound, fun rest => ?_⟩
      rw [List.append_assoc, List.append_assoc, readOn_layout hlayout, hread]
      rfl
    | false =>
      cases hspace
      obtain ⟨found, hfound, hread⟩ := hgoon d hopened
      refine ⟨_, .inline node.norm hfound, fun rest => ?_⟩
      rw [List.nil_append, List.append_assoc, hread]

end

end Draft

end ApiDocs.Xml
