import ApiDocs.Proofs.Xml.Relayout

/-!
# Writing and reading back

A legible document is read back from its written form as its normal form, and from any other layout
of that form, too. Documents whose names and keys hold none of the characters that markup is made of
are legible, whatever their texts and the values of their attributes are.
-/

namespace ApiDocs.Xml

open Text

namespace Node

theorem all_of_imp {p q : Node → Bool} (himp : ∀ node, p node = true → q node = true) :
    ∀ {node : Node}, node.all p = true → node.all q = true
  | .element name attributes children, h => by
    obtain ⟨hnode, hchildren⟩ := all_element_iff.1 h
    exact all_element_iff.2 ⟨himp _ hnode, fun child hchild =>
      all_of_imp himp (hchildren child hchild)⟩
  | .text _, h | .cdata _, h | .comment _, h => himp _ h

end Node

/-! ## Reading legible trees -/

/-- Where a legible node was written, that node in normal form is read. -/
theorem Draft.readOn_chars (node : Node) (h : node.all Node.isLegible = true) (d : Draft)
    (depth : Nat) (indented : Bool) (rest : List Char) :
    d.readOn (node.chars depth indented ++ rest) = (d.addNode node.norm).bind (·.readOn rest) :=
  readOn_relaid node h (Node.spells_parts node depth indented).relaid d rest

/-! ## Documents -/

def Node.isComment : Node → Bool
  | .comment _ => true
  | _ => false

theorem Node.isComment_iff {node : Node} :
    node.isComment = true ↔ ∃ content, node = .comment content := by
  cases node <;> simp [isComment]

namespace Document

open Node

/-- The document can be read back: it has comments only in front of its root, and they and the
root are legible. -/
def isLegible (d : Document) : Bool :=
  (d.prolog.all fun node => node.isComment && node.isLegible) &&
    d.root.toNode.all Node.isLegible

theorem toList_render (d : Document) :
    d.render.toList = d.prolog.flatMap (fun node => node.chars 0 true ++ ['\n']) ++
      (d.root.toNode.chars 0 true ++ ['\n']) := by
  have hprolog : ∀ (nodes : List Node) (out : String),
      (nodes.foldl (fun out node => node.write 0 true out ++ "\n") out).toList =
        out.toList ++ nodes.flatMap (fun node => node.chars 0 true ++ ['\n']) := by
    intro nodes
    induction nodes with
    | nil => simp
    | cons node rest ih =>
      intro out
      rw [List.foldl_cons, ih, String.toList_append, toList_write]
      simp
  rw [render, String.toList_append, toList_write, hprolog]
  simp

theorem spells_lineEnd : Spells [.gap "\n"] ['\n'] :=
  .gap (by decide : Node.isLayout "\n" = true)

theorem spells_prolog (nodes : List Node) :
    Spells (nodes.flatMap fun node => node.parts 0 true ++ [.gap "\n"])
      (nodes.flatMap fun node => node.chars 0 true ++ ['\n']) := by
  induction nodes with
  | nil => exact .nil
  | cons node nodes ih =>
    exact ((spells_parts node 0 true).append spells_lineEnd).append ih

/-- The parts of a document are what is written for it. -/
theorem spells_parts (d : Document) : Spells d.parts d.render.toList := by
  rw [toList_render]
  exact (spells_prolog d.prolog).append
    ((Node.spells_parts d.root.toNode 0 true).append spells_lineEnd)

/-- Both the comments of the prolog and the root begin with markup. -/
theorem exists_parts {d : Document} (h : d.prolog.all Node.isComment = true) :
    ∃ chars parts, d.parts = .kept ('<' :: chars) :: parts := by
  rw [parts]
  rcases hprolog : d.prolog with _ | ⟨node, nodes⟩
  · rw [List.flatMap_nil, List.nil_append, Element.toNode]
    unfold Node.parts
    split <;> exact ⟨_, _, rfl⟩
  · rw [hprolog] at h
    obtain ⟨content, rfl⟩ := isComment_iff.1 (Bool.and_eq_true_iff.1 h).1
    unfold Node.parts Node.chars
    exact ⟨_, _, rfl⟩

/-- What stands for the document begins with markup, so no byte order mark is taken off it. -/
theorem dropByteOrderMark_of_relaid {d : Document} (h : d.prolog.all Node.isComment = true)
    {cs : List Char} (hcs : Relaid d.parts cs) :
    dropByteOrderMark (String.ofList cs) = String.ofList cs := by
  obtain ⟨chars, parts, hparts⟩ := exists_parts h
  rw [hparts] at hcs
  cases hcs with
  | kept _ hrest =>
    unfold dropByteOrderMark
    split
    · next heq => simp at heq
    · rfl

theorem dropByteOrderMark_render {d : Document} (h : d.prolog.all Node.isComment = true) :
    dropByteOrderMark d.render = d.render := by
  have hdrop := dropByteOrderMark_of_relaid h d.spells_parts.relaid
  rwa [String.ofList_toList] at hdrop

theorem readOn_relaidProlog {nodes : List Node}
    (h : nodes.all (fun node => node.isComment && node.isLegible) = true) {cs : List Char}
    (hcs : Relaid (nodes.flatMap fun node => node.parts 0 true ++ [.gap "\n"]) cs)
    (before : List Node) (rest : List Char) :
    Draft.readOn ⟨[], before, none⟩ (cs ++ rest) =
      Draft.readOn ⟨[], before ++ nodes, none⟩ rest := by
  induction nodes generalizing before cs with
  | nil =>
    cases hcs
    rw [List.nil_append, List.append_nil]
  | cons node nodes ih =>
    obtain ⟨hnode, hnodes⟩ := Bool.and_eq_true_iff.1 h
    obtain ⟨hcomment, hlegible⟩ := Bool.and_eq_true_iff.1 hnode
    obtain ⟨content, rfl⟩ := isComment_iff.1 hcomment
    have hlegible : (comment content).all Node.isLegible = true := by
      simpa [Node.all] using hlegible
    obtain ⟨front, back, rfl, hfront, hback⟩ := hcs.of_append
    obtain ⟨first, space, rfl, hfirst, hspace⟩ := hfront.of_append
    obtain ⟨layout, hlayout, rfl⟩ := hspace.of_gap
    rw [List.append_assoc, List.append_assoc, Draft.readOn_relaid _ hlegible hfirst]
    -- outside the root a layout is not kept
    have hgap : ∀ (before : List Node) (rest : List Char),
        Draft.readOn ⟨[], before, none⟩ (layout.toList ++ rest) =
          Draft.readOn ⟨[], before, none⟩ rest :=
      fun before rest => Draft.readOn_layout hlayout _ rest
    refine (hgap (before ++ [comment content]) (back ++ rest)).trans ?_
    rw [ih hnodes hback, List.append_assoc]
    rfl

theorem readOn_prolog {nodes : List Node}
    (h : nodes.all (fun node => node.isComment && node.isLegible) = true)
    (before : List Node) (rest : List Char) :
    Draft.readOn ⟨[], before, none⟩
        (nodes.flatMap (fun node => node.chars 0 true ++ ['\n']) ++ rest) =
      Draft.readOn ⟨[], before ++ nodes, none⟩ rest :=
  readOn_relaidProlog h (spells_prolog nodes).relaid before rest

/-- A legible document is read as its normal form from what was written for it, whatever layout
stands in the gaps. -/
theorem parse_of_relaid {d : Document} (h : d.isLegible = true) {cs : List Char}
    (hcs : Relaid d.parts cs) : Document.parse (String.ofList cs) = .ok d.norm := by
  obtain ⟨hprolog, hroot⟩ := Bool.and_eq_true_iff.1 h
  have hcomments : d.prolog.all Node.isComment = true := by
    rw [List.all_eq_true] at hprolog ⊢
    exact fun node hnode => (Bool.and_eq_true_iff.1 (hprolog node hnode)).1
  rw [Draft.parse_eq_readOn, dropByteOrderMark_of_relaid hcomments hcs, String.toList_ofList]
  obtain ⟨front, back, rfl, hfront, hback⟩ := hcs.of_append
  obtain ⟨tree, space, rfl, htree, hspace⟩ := hback.of_append
  obtain ⟨layout, hlayout, rfl⟩ := hspace.of_gap
  have hread := readOn_relaidProlog hprolog hfront [] (tree ++ layout.toList)
  rw [List.nil_append] at hread
  refine hread.trans ?_
  rw [Draft.readOn_relaid _ hroot htree, ← Element.toNode_norm]
  change Draft.readOn ⟨[], d.prolog, some d.root.norm⟩ layout.toList = _
  rw [← List.append_nil layout.toList, Draft.readOn_layout hlayout, Draft.readOn_eq]
  simp [next, Draft.addContent, Draft.finish, Document.norm]

/-- A legible document is read back as its normal form. -/
theorem parse_render_of_isLegible {d : Document} (h : d.isLegible = true) :
    Document.parse d.render = .ok d.norm := by
  have hread := parse_of_relaid h d.spells_parts.relaid
  rwa [String.ofList_toList] at hread

end Document

/-! ## Clean documents -/

/-- The characters that markup is made of. -/
def markupChars : List Char :=
  [' ', '\t', '\r', '\n', '<', '>', '/', '=', '&', '"', '\'']

/-- A name or a key that cannot be taken for anything else: it is not empty, and holds nothing
that markup is made of. -/
def isCleanToken (token : String) : Bool :=
  token ≠ "" && token.toList.all (! markupChars.contains ·)

namespace Node

/-- The names and the keys of the node are clean, its keys differ, and it does not hold the mark
that ends it. An element does not begin like a declaration. Texts and values are arbitrary. -/
def isClean : Node → Bool
  | .element name attributes _ =>
    isCleanToken name && ! name.toList.head?.any (['!', '?'].contains ·) &&
      attributes.all (isCleanToken ·.key) && decide (attributes.map (·.key)).Nodup
  | .text _ => true
  | .cdata content => ! endsCData content
  | .comment content => ! endsComment content

end Node

/-- Comments stand in front of the root, and every node is clean. -/
def Document.isClean (d : Document) : Bool :=
  (d.prolog.all fun node => node.isComment && node.isClean) &&
    d.root.toNode.all Node.isClean

theorem isCleanToken_iff {token : String} :
    isCleanToken token = true ↔ token.toList ≠ [] ∧ ∀ c ∈ token.toList, c ∉ markupChars := by
  simp [isCleanToken]

theorem isSpace_of_not_mem {c : Char} (h : c ∉ markupChars) : isSpace c = false := by
  simp_all [markupChars, isSpace]

theorem isReadableName_of_isCleanToken {name : String} (h : isCleanToken name = true)
    (hhead : name.toList.head?.any (['!', '?'].contains ·) = false) :
    isReadableName name = true := by
  obtain ⟨-, hchars⟩ := isCleanToken_iff.1 h
  simp only [isReadableName, Bool.and_eq_true, List.all_eq_true, Bool.not_eq_true']
  refine ⟨fun c hc => isSpace_of_not_mem (hchars c hc), ?_⟩
  rcases hname : name.toList with _ | ⟨c, others⟩
  · rfl
  · have hc : c ≠ '/' := by
      rintro rfl
      exact hchars '/' (hname ▸ List.mem_cons_self) (by decide)
    simpa [hname, hc] using hhead

theorem isReadableKey_of_isCleanToken {key : String} (h : isCleanToken key = true) :
    isReadableKey key = true := by
  obtain ⟨hne, hchars⟩ := isCleanToken_iff.1 h
  obtain ⟨first, rest, hkey⟩ := List.exists_cons_of_ne_nil hne
  rw [hkey] at hchars
  obtain ⟨hfirst, hrest⟩ := List.forall_mem_cons.1 hchars
  refine isReadableKey_iff.2 ⟨first, rest, hkey, isSpace_of_not_mem hfirst, fun c hc => ?_⟩
  have hequals : c ≠ '=' := by
    rintro rfl
    exact hrest '=' hc (by decide)
  simp [isKeyChar, hequals, isSpace_of_not_mem (hrest c hc)]

/-- Characters that are no quotes and end no tag change nothing inside a tag. -/
theorem isTagBody_append {cs : List Char} (h : ∀ c ∈ cs, c ≠ '>' ∧ c ≠ '"' ∧ c ≠ '\'')
    (rest : List Char) : isTagBody none (cs ++ rest) = isTagBody none rest := by
  induction cs with
  | nil => rfl
  | cons c cs ih =>
    obtain ⟨⟨hend, hdouble, hsingle⟩, hcs⟩ := List.forall_mem_cons.1 h
    simp [isTagBody, nextQuote, hend, hdouble, hsingle, ih hcs]

theorem isTagBody_quoted {cs : List Char} (h : ∀ c ∈ cs, c ≠ '"') (rest : List Char) :
    isTagBody (some '"') (cs ++ '"' :: rest) = isTagBody none rest := by
  induction cs with
  | nil => simp [isTagBody, nextQuote]
  | cons c cs ih =>
    obtain ⟨hc, hcs⟩ := List.forall_mem_cons.1 h
    simp [isTagBody, nextQuote, hc, ih hcs]

theorem ne_of_isCleanToken {token : String} (h : isCleanToken token = true) :
    ∀ c ∈ token.toList, c ≠ '>' ∧ c ≠ '"' ∧ c ≠ '\'' := by
  intro c hc
  have hmem := (isCleanToken_iff.1 h).2 c hc
  simp_all [markupChars]

theorem isTagBody_chars {a : Attribute} (h : isCleanToken a.key = true) (rest : List Char) :
    isTagBody none (a.chars ++ rest) = isTagBody none rest := by
  have hchars : a.chars ++ rest = [' '] ++ (a.key.toList ++ (['='] ++
      '"' :: (a.value.toList.flatMap valueEscape ++ '"' :: rest))) := by
    simp [Attribute.chars]
  rw [hchars, isTagBody_append (by simp), isTagBody_append (ne_of_isCleanToken h),
    isTagBody_append (by simp), isTagBody]
  simp only [nextQuote]
  simpa using isTagBody_quoted (flatMap_valueEscape_ne_quote a.value.toList) rest

theorem isTagBody_flatMap_chars {attributes : List Attribute}
    (h : ∀ a ∈ attributes, isCleanToken a.key = true) (rest : List Char) :
    isTagBody none (attributes.flatMap Attribute.chars ++ rest) = isTagBody none rest := by
  induction attributes with
  | nil => rfl
  | cons a attributes ih =>
    obtain ⟨ha, hattributes⟩ := List.forall_mem_cons.1 h
    rw [List.flatMap_cons, List.append_assoc, isTagBody_chars ha, ih hattributes]

theorem getLast?_tagChars_ne {name : String} (hname : isCleanToken name = true)
    (attributes : List Attribute) : (tagChars name attributes).getLast? ≠ some '/' := by
  rw [tagChars, List.getLast?_append]
  rcases List.eq_nil_or_concat attributes with rfl | ⟨others, a, rfl⟩
  · intro h
    rw [List.flatMap_nil, List.getLast?_nil, Option.none_or] at h
    exact (isCleanToken_iff.1 hname).2 '/' (List.mem_of_getLast? h) (by decide)
  · have hchars : a.chars = (' ' :: a.key.toList ++ '=' :: '"' ::
        a.value.toList.flatMap valueEscape) ++ ['"'] := by
      simp [Attribute.chars]
    rw [List.concat_eq_append, List.flatMap_append, List.flatMap_singleton, hchars,
      ← List.append_assoc, List.getLast?_concat, Option.some_or]
    decide

theorem tagHolds_of_isCleanToken {name : String} (hname : isCleanToken name = true)
    {attributes : List Attribute} (hkeys : ∀ a ∈ attributes, isCleanToken a.key = true)
    (children : List Node) : tagHolds name attributes children = true := by
  have hbody : isTagBody none (startChars name attributes children) = true := by
    rw [startChars, tagChars, List.append_assoc, isTagBody_append (ne_of_isCleanToken hname),
      isTagBody_flatMap_chars hkeys]
    split <;> decide
  rw [tagHolds, hbody]
  cases hempty : children.isEmpty with
  | true => rfl
  | false => simpa [startChars, hempty] using getLast?_tagChars_ne hname attributes

theorem Node.isLegible_of_isClean (node : Node) (h : node.isClean = true) :
    node.isLegible = true := by
  cases node with
  | element name attributes children =>
    simp only [Node.isClean, Bool.and_eq_true, Bool.not_eq_true', List.all_eq_true,
      decide_eq_true_eq] at h
    obtain ⟨⟨⟨hname, hhead⟩, hkeys⟩, hdiffer⟩ := h
    have hbody : isTagBody none name.toList = true := by
      simpa [isTagBody] using isTagBody_append (ne_of_isCleanToken hname) []
    exact Node.isLegible_element_iff.2 ⟨isReadableName_of_isCleanToken hname hhead,
      ⟨fun a ha => isReadableKey_of_isCleanToken (hkeys a ha), hdiffer⟩,
      tagHolds_of_isCleanToken hname hkeys children, .inr hbody⟩
  | _ => exact h

theorem Document.isLegible_of_isClean {d : Document} (h : d.isClean = true) :
    d.isLegible = true := by
  simp only [isClean, Bool.and_eq_true, List.all_eq_true] at h
  simp only [isLegible, Bool.and_eq_true, List.all_eq_true]
  exact ⟨fun node hnode => ⟨(h.1 node hnode).1, node.isLegible_of_isClean (h.1 node hnode).2⟩,
    Node.all_of_imp Node.isLegible_of_isClean h.2⟩

/-- A clean document is read back as its normal form, and as itself exactly if it is in normal
form. -/
theorem Document.parse_render_of_isClean {d : Document} (h : d.isClean = true) :
    Document.parse d.render = .ok d.norm ∧
      (Document.parse d.render = .ok d ↔ d.isNormal = true) := by
  have hread := Document.parse_render_of_isLegible (Document.isLegible_of_isClean h)
  refine ⟨hread, ?_⟩
  rw [hread, ← Document.norm_eq_self_iff]
  exact ⟨Except.ok.inj, congrArg _⟩

/-- A comment, a value with quotes and line breaks, layout and empty texts between elements, and
texts to be joined below one another. -/
theorem Document.parse_render_mixed :
    let a : Attribute := ⟨"since", "\"1\" <\n& '2'"⟩
    let d : Document := ⟨[.comment " types -"], ⟨"Type", [a, ⟨"name", ""⟩],
      [.text "\n  ", .element "Docs" [] [.text "a &amp; ", .text "", .text "b]]>", .cdata "<i>"],
        .text "", .comment "-", .element "Members" [] [.text "\n", .text "\t"]]⟩⟩
    d.isClean = true ∧ d.isNormal = false ∧ Document.parse d.render = .ok d.norm ∧
      d.norm = ⟨[.comment " types -"], ⟨"Type", [a, ⟨"name", ""⟩],
        [.element "Docs" [] [.text "a &amp; b]]>", .cdata "<i>"], .comment "-",
          .element "Members" [] []]⟩⟩ :=
  ⟨by decide, by decide, (Document.parse_render_of_isClean (by decide)).1, by decide⟩

/-! ## Other layouts -/

/-- A clean document in normal form is read from what was written for it, whatever layouts take the
place of the gaps. -/
theorem Document.parse_refill_of_isClean {d : Document} (hclean : d.isClean = true)
    (hnormal : d.isNormal = true) {layouts : List String}
    (hlayouts : ∀ layout ∈ layouts, Node.isLayout layout = true) :
    d.parts.flatMap Part.chars = d.render.toList ∧
      Document.parse (String.ofList (refill layouts d.parts)) = .ok d := by
  have hrelaid := d.spells_parts.relaid_refill hlayouts
  have hread := Document.parse_of_relaid (Document.isLegible_of_isClean hclean) hrelaid
  rw [Document.norm_eq_self_iff.2 hnormal] at hread
  exact ⟨d.spells_parts.chars, hread⟩

/-- Line ends of another system, other blanks and no layout at all, around comments, an element
without content and a text with a reference. -/
theorem Document.parse_refill_mixed :
    let d : Document := ⟨[.comment " types -"], ⟨"Type", [⟨"name", "A & B"⟩],
      [.comment "-", .element "Docs" [] [.element "remarks" [] [], .comment "none"],
        .element "p" [] [.text "a < ", .element "b" [] [.comment "", .element "i" [] []]]]⟩⟩
    let layouts := ["", "\r\n\t", "\n\n", "\u2003\n\u0085", "", "", "\r\n", "", " \n"]
    d.isClean = true ∧ d.isNormal = true ∧ (∀ layout ∈ layouts, Node.isLayout layout = true) ∧
      String.ofList (refill layouts d.parts) =
        "<!-- types ---><Type name=\"A &amp; B\">\r\n\t<!----->\n\n<Docs>\u2003\n\u0085<remarks />" ++
          "<!--none--></Docs>\r\n<p>a &lt; <b><!----><i /></b></p></Type> \n" ∧
      Document.parse (String.ofList (refill layouts d.parts)) = .ok d :=
  ⟨by decide, by decide, by decide, by decide +kernel,
    (Document.parse_refill_of_isClean (by decide) (by decide) (by decide)).2⟩

end ApiDocs.Xml
