import ApiDocs.Proofs.Xml.Listing

/-!
# Reading piece by piece

A draft is listed like a document, with its open elements at the end. What one event adds to the
listing of a draft are the pieces that the event gives, once runs of texts are joined and layout is
left out. So the listing of a document can be told from its events alone.
-/

namespace ApiDocs.Xml

/-! ## The texts among the events -/

theorem ne_text_of_nextDeclaration {cs rest : List Char} {content : String} :
    nextDeclaration cs ≠ .event (.text content) rest := by
  intro h
  unfold nextDeclaration at h
  split at h
  · obtain ⟨_, -, h⟩ := Front.ofCut_eq_event h
    cases h
  · cases h
  · obtain ⟨_, -, h⟩ := Front.ofCut_eq_event h
    cases h
  · cases h
  · exact ne_text_of_nextDoctype h
  · exact ne_text_of_nextDoctype h
  · cases h
where
  ne_text_of_nextDoctype {cs rest : List Char} {content : String} :
      nextDoctype cs ≠ .event (.text content) rest := by
    unfold nextDoctype
    split
    · exact nofun
    · split
      · exact nofun
      · split <;> exact nofun

theorem ne_text_of_nextMarkup {cs rest : List Char} {content : String} :
    nextMarkup cs ≠ .event (.text content) rest := by
  intro h
  unfold nextMarkup at h
  split at h
  · cases h
  · exact ne_text_of_nextDeclaration h
  · cases h
  · obtain ⟨_, -, h⟩ := Front.ofCut_eq_event h
    cases h
  · obtain ⟨_, -, h⟩ := Front.ofCut_eq_event h
    cases h
  · obtain ⟨content, -, h⟩ := Front.ofCut_eq_event h
    unfold Event.ofTag at h
    split at h <;> cases h

/-- No text without characters is read. -/
theorem content_ne_empty_of_next {cs rest : List Char} {content : String}
    (h : next cs = .event (.text content) rest) : content ≠ "" := by
  unfold next at h
  split at h
  · cases h
  · exact absurd h ne_text_of_nextMarkup
  · unfold nextReference at h
    simp only at h
    split at h <;> cases h
  · next hnil hlt hamp =>
    obtain ⟨c, tail, rfl⟩ := List.exists_cons_of_ne_nil hnil
    have hc : c ≠ '<' ∧ c ≠ '&' :=
      ⟨fun hc => hlt tail (by rw [hc]), fun hc => hamp tail (by rw [hc])⟩
    cases h
    simp [hc]

/-! ## Events one by one -/

theorem Reading.ofChars_of_finished {opened : List String} {cs : List Char}
    (h : next cs = .finished) : ofChars opened cs = ⟨[], none⟩ := by
  rw [ofChars]
  split <;> simp_all

theorem Reading.ofChars_of_event {opened names : List String} {cs rest : List Char} {event : Event}
    (h : next cs = .event event rest) (hnames : openedAfter opened event = .ok names) :
    ofChars opened cs =
      ⟨event :: (ofChars names rest).events, (ofChars names rest).fault⟩ := by
  rw [ofChars]
  split <;> simp_all

/-! ## Drafts as pieces -/

/-- Elements that are open, the innermost first, as pieces. -/
def Piece.ofOpened : List Element → List Piece
  | [] => []
  | innermost :: outer =>
    ofOpened outer ++
      .start innermost.name innermost.attributes :: Node.piecesOfList innermost.children

namespace Draft

def pieces (d : Draft) : List Piece :=
  Node.piecesOfList (d.prolog ++ d.root.toList.map Element.toNode) ++ Piece.ofOpened d.opened

/-- The pieces that are kept of those behind a draft. -/
def kept (d : Draft) (rest : List Piece) : List Piece :=
  Piece.withinRoot d.opened.length d.root.isSome rest

/-- The draft `d'` has taken the pieces `taken` in addition to what `d` has taken. -/
def Adds (d : Draft) (taken : List Piece) (d' : Draft) : Prop :=
  ∀ rest, Piece.tidy (d'.pieces ++ d'.kept rest) = Piece.tidy (d.pieces ++ d.kept (taken ++ rest))

variable {d : Draft}

theorem adds_of_append {taken : List Piece} {d' : Draft} (new : List Piece)
    (hpieces : d'.pieces = d.pieces ++ new)
    (hkept : ∀ rest, d.kept (taken ++ rest) = new ++ d'.kept rest) : d.Adds taken d' := by
  intro rest
  rw [hpieces, hkept, List.append_assoc]

/-! ### Where nodes are put -/

@[simp] theorem kept_addContent (node : Node) (rest : List Piece) :
    (d.addContent node).kept rest = d.kept rest := by
  rcases d with ⟨_ | ⟨innermost, outer⟩, prolog, root⟩ <;> rfl

theorem kept_of_opened_eq_nil (h : d.opened = []) (node : Node) (hnode : node.isTextual = true)
    (rest : List Piece) : d.kept (node.pieces ++ rest) = d.kept rest := by
  cases node <;> simp_all [Node.isTextual, kept, Node.pieces, Piece.withinRoot]

theorem kept_of_opened (h : d.opened ≠ []) (node : Node) (hnode : node.element? = none)
    (rest : List Piece) : d.kept (node.pieces ++ rest) = node.pieces ++ d.kept rest := by
  cases node <;> simp_all [Node.element?, kept, Node.pieces, Piece.withinRoot]

theorem addContent_of_opened_eq_nil (h : d.opened = []) (node : Node) : d.addContent node = d := by
  simp only [addContent, h]

theorem pieces_addContent (h : d.opened ≠ []) {node : Node} (hnode : node.isText = false) :
    (d.addContent node).pieces = d.pieces ++ node.pieces := by
  rcases d with ⟨_ | ⟨innermost, outer⟩, prolog, root⟩
  · exact absurd rfl h
  · simp only [addContent, pieces, Piece.ofOpened, Element.push, Node.push_of_not_isText hnode,
      Node.piecesOfList_append, Node.piecesOfList_singleton, List.append_assoc, List.cons_append]

theorem pieces_addElement {d' : Draft} {e : Element} (h : d.addElement e = .ok d') :
    d'.pieces = d.pieces ++ e.toNode.pieces := by
  unfold addElement at h
  split at h
  · next hopened hroot =>
    cases h
    simp [pieces, hopened, hroot, Piece.ofOpened, Node.piecesOfList_append,
      Node.piecesOfList_singleton]
  · cases h
  · next innermost outer hopened =>
    cases h
    exact pieces_addContent (by simp [hopened]) rfl

/-- Behind the end of an element, pieces are kept as they are with that element in place. -/
theorem withinRoot_stop {d' : Draft} {e : Element} (h : d.addElement e = .ok d') (name : String)
    (rest : List Piece) :
    Piece.withinRoot (d.opened.length + 1) d.root.isSome (.stop name :: rest) =
      .stop name :: d'.kept rest := by
  unfold addElement at h
  split at h
  · next hopened hroot =>
    cases h
    simp [Piece.withinRoot, kept, hopened, hroot]
  · cases h
  · next innermost outer hopened =>
    cases h
    have hlength : d.opened.length ≠ 0 := by simp [hopened]
    rw [kept_addContent, Piece.withinRoot]
    simp [kept, hlength]

/-! ### One event -/

theorem adds_startTag (name : String) (attributes : List Attribute) :
    d.Adds [.start name attributes]
      { d with opened := ⟨name, attributes, []⟩ :: d.opened } := by
  refine adds_of_append [.start name attributes] ?_ fun rest => rfl
  simp [pieces, Piece.ofOpened, Node.piecesOfList]

theorem adds_emptyTag {name : String} {attributes : List Attribute} {d' : Draft}
    (h : d.addElement ⟨name, attributes, []⟩ = .ok d') :
    d.Adds [.start name attributes, .stop name] d' := by
  refine adds_of_append _ (pieces_addElement h) fun rest => ?_
  have hstart : d.kept ([.start name attributes, .stop name] ++ rest) = .start name attributes ::
      Piece.withinRoot (d.opened.length + 1) d.root.isSome (.stop name :: rest) := rfl
  rw [hstart, withinRoot_stop h]
  rfl

/-- Layout is left out of an element when it is closed: no text can join what is in it any more. -/
theorem adds_endTag {innermost : Element} {outer : List Element}
    (hopened : d.opened = innermost :: outer) (hjoined : Node.Joined innermost.children)
    {d' : Draft} (h : { d with opened := outer }.addElement innermost.dropIndentation = .ok d') :
    d.Adds [.stop innermost.name] d' := by
  intro rest
  have hstop : d.kept (.stop innermost.name :: rest) = .stop innermost.name :: d'.kept rest := by
    have hbehind := withinRoot_stop h innermost.name rest
    rwa [kept, hopened]
  have hpieces : d.pieces = pieces { d with opened := outer } ++
      .start innermost.name innermost.attributes :: Node.piecesOfList innermost.children := by
    simp only [pieces, hopened, Piece.ofOpened, List.append_assoc]
  have htidy := Node.tidy_piecesOfList_filter hjoined
  have hstart : (Piece.start innermost.name innermost.attributes).isText = false := rfl
  have hend : (Piece.stop innermost.name).isText = false := rfl
  rw [pieces_addElement h, hpieces, List.singleton_append, hstop]
  simp only [Element.toNode, Element.dropIndentation, Node.pieces, List.append_assoc,
    List.cons_append, List.nil_append, Piece.tidy_append_cons hstart, Piece.tidy_append_cons hend,
    htidy]

theorem adds_text {content : String} (hcontent : content ≠ "") :
    d.Adds [.text content] (d.addContent (.text content)) := by
  intro rest
  rw [kept_addContent]
  by_cases hopened : d.opened = []
  · rw [addContent_of_opened_eq_nil hopened]
    exact congrArg (fun rest => Piece.tidy (d.pieces ++ rest))
      (kept_of_opened_eq_nil hopened (.text content) rfl rest).symm
  · have hkept : d.kept ([.text content] ++ rest) = .text content :: d.kept rest :=
      kept_of_opened hopened (.text content) rfl rest
    rw [hkept]
    generalize d.kept rest = behind
    obtain ⟨innermost, outer, hcons⟩ := List.exists_cons_of_ne_nil hopened
    have hjoin := Node.joinRuns_piecesOfList_push hcontent innermost.children behind
    simp only [addContent, pieces, hcons, Piece.ofOpened, Element.push, List.append_assoc,
      List.cons_append]
    refine Piece.tidy_append_congr (Piece.joinRuns_append_congr ?_ _) _
    rw [Piece.joinRuns_cons, Piece.joinRuns_cons, hjoin]

theorem adds_content (hopened : d.opened ≠ []) (node : Node) (htext : node.isText = false)
    (hnode : node.element? = none) : d.Adds node.pieces (d.addContent node) := by
  refine adds_of_append node.pieces (pieces_addContent hopened htext) fun rest => ?_
  rw [kept_addContent, kept_of_opened hopened node hnode]

theorem adds_cdata (content : String) :
    d.Adds [.cdata content] (d.addContent (.cdata content)) := by
  by_cases hopened : d.opened = []
  · rw [addContent_of_opened_eq_nil hopened]
    refine adds_of_append [] (List.append_nil _).symm fun rest => ?_
    exact kept_of_opened_eq_nil hopened (.cdata content) rfl rest
  · exact adds_content hopened (.cdata content) rfl rfl

theorem adds_comment (content : String) :
    d.Adds [.comment content] (d.addComment content) := by
  unfold addComment
  split
  · next hopened hroot =>
    refine adds_of_append [.comment content] ?_ fun rest => ?_
    · simp [pieces, hopened, hroot, Piece.ofOpened, Node.piecesOfList_append,
        Node.piecesOfList_singleton, Node.pieces]
    · simp [kept, hopened, hroot, Piece.withinRoot]
  · next hopened hroot =>
    refine adds_of_append [] (List.append_nil _).symm fun rest => ?_
    simp [kept, hopened, hroot, Piece.withinRoot]
  · next innermost outer hopened =>
    exact adds_content (by simp [hopened]) (.comment content) rfl rfl

theorem adds_nil : d.Adds [] d := fun _ => rfl

/-- An event adds to a draft the pieces that it gives. -/
theorem exists_adds_of_step (hd : d.IsSound) {event : Event}
    (htext : ∀ content, event = .text content → content ≠ "") {names : List String}
    (hnames : openedAfter d.openNames event = .ok names) {d' : Draft} (h : d.step event = .ok d') :
    ∃ taken, event.pieces? = some taken ∧ d.Adds taken d' := by
  cases takes_of_step h with
  | startTag hattributes =>
    exact ⟨_, by rw [Event.pieces?, hattributes]; rfl, adds_startTag _ _⟩
  | emptyTag hattributes hadd =>
    exact ⟨_, by rw [Event.pieces?, hattributes]; rfl, adds_emptyTag hadd⟩
  | @endTag name innermost outer hopened _ hadd =>
    have hjoined : Node.Joined innermost.children :=
      (hd.opened innermost (hopened ▸ List.mem_cons_self)).joined
    simp only [openedAfter, openNames, hopened, List.map_cons] at hnames
    split at hnames
    · next hname =>
      subst hname
      exact ⟨_, rfl, adds_endTag hopened hjoined hadd⟩
    · cases hnames
  | text content => exact ⟨_, rfl, adds_text (htext content rfl)⟩
  | @reference _ c hc =>
    have hne : c.toString ≠ "" := by simp [Char.toString]
    exact ⟨_, by rw [Event.pieces?, hc]; rfl, adds_text hne⟩
  | cdata content => exact ⟨_, rfl, adds_cdata content⟩
  | comment content => exact ⟨_, rfl, adds_comment content⟩
  | instruction | doctype => exact ⟨_, rfl, adds_nil⟩

/-! ### All events -/

theorem pieces_of_finish (hd : d.IsSound) {document : Document} (h : d.finish = .ok document) :
    document.pieces = Piece.tidy (d.pieces ++ d.kept []) := by
  unfold finish at h
  split at h
  · cases h
  · cases h
  · next root hopened hroot =>
    cases h
    have hread : Document.IsRead ⟨d.prolog, root⟩ := ⟨hd.prolog, hd.root root hroot⟩
    have hpieces : d.pieces = Document.pieces ⟨d.prolog, root⟩ := by
      simp [pieces, Document.pieces, hopened, hroot, Piece.ofOpened, Node.piecesOfList_append,
        Node.piecesOfList_singleton]
    rw [show d.kept [] = [] from rfl, List.append_nil, hpieces, hread.tidy_pieces]

/-- What is read on from a draft is listed behind it. -/
theorem pieces_of_readOn (hd : d.IsSound) {cs : List Char} {document : Document}
    (h : d.readOn cs = .ok document) :
    (Reading.ofChars d.openNames cs).fault = none ∧
      ∃ taken, (Reading.ofChars d.openNames cs).events.mapM Event.pieces? = some taken ∧
        document.pieces = Piece.tidy (d.pieces ++ d.kept taken.flatten) := by
  induction hlength : cs.length using Nat.strongRecOn generalizing d cs with
  | ind length ih =>
    rw [readOn_eq] at h
    split at h
    · next hnext =>
      rw [Reading.ofChars_of_finished hnext]
      exact ⟨rfl, [], rfl, pieces_of_finish hd h⟩
    · cases h
    · next event rest hnext =>
      split at h
      · cases h
      · next names hnames =>
        obtain ⟨d', hstep, h⟩ := exists_of_bind_eq_ok h
        have hd' := isSound_step hd (isReadable_of_next hnext) hnames hstep
        obtain ⟨first, hfirst, hadds⟩ := exists_adds_of_step hd
          (fun content hcontent => content_ne_empty_of_next (hcontent ▸ hnext)) hnames hstep
        obtain ⟨hfault, taken, htaken, hpieces⟩ :=
          ih _ (hlength ▸ length_lt_of_next hnext) hd' h rfl
        rw [openNames_step hnames hstep] at hfault htaken
        rw [Reading.ofChars_of_event hnext hnames]
        refine ⟨hfault, first :: taken, ?_, ?_⟩
        · simp [hfirst, htaken]
        · rw [hpieces, hadds, List.flatten_cons]

end Draft

/-- The listing of a document that was read is what its events give, in order: less the texts and
the CDATA outside the root and the comments behind it, with each run of texts joined, and without
the texts that are layout. -/
theorem Document.pieces_of_parse {s : String} {d : Document} (h : Document.parse s = .ok d) :
    (Reading.ofString s).fault = none ∧
      ∃ taken, (Reading.ofString s).events.mapM Event.pieces? = some taken ∧
        d.pieces = Piece.tidy (Piece.withinRoot 0 false taken.flatten) :=
  Draft.pieces_of_readOn ⟨by simp, by simp, by simp⟩ h

/-- Layout, a text that goes on over a reference and an instruction, and things around the root. -/
theorem Document.pieces_of_parse_mixed :
    let s := "<?xml?>\n<!--a--> <r k='&lt;'>\n  <b>x &#65;<?p?>y\n</b><e /> " ++
      "<!-- --><![CDATA[]]></r><!--z-->"
    let d : Document := ⟨[.comment "a"], ⟨"r", [⟨"k", "<"⟩],
      [.element "b" [] [.text "x Ay\n"], .element "e" [] [], .text " ", .comment " ", .cdata ""]⟩⟩
    Document.parse s = .ok d ∧
      d.pieces = [.comment "a", .start "r" [⟨"k", "<"⟩], .start "b" [], .text "x Ay\n", .stop "b",
        .start "e" [], .stop "e", .text " ", .comment " ", .cdata "", .stop "r"] ∧
      (Reading.ofString s).fault = none ∧
      ∃ taken, (Reading.ofString s).events.mapM Event.pieces? = some taken ∧
        d.pieces = Piece.tidy (Piece.withinRoot 0 false taken.flatten) := by
  intro s d
  have hparse : Document.parse s = .ok d := by decide +kernel
  exact ⟨hparse, by decide, Document.pieces_of_parse hparse⟩

end ApiDocs.Xml
