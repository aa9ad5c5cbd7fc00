import ApiDocs.Proofs.Xml.NormalChange
import ApiDocs.Proofs.Xml.ReadTree

/-!
# Settled trees

A tree is settled if its names are clean and it is in normal form: it is written and read back as it
is. What the reader makes of a document with clean names is settled, and so is every part of a
settled tree, and a settled tree with other settled nodes put into one of its elements.
-/

namespace ApiDocs.Xml

namespace Node

/-- The name and the keys of the node are clean, and it does not begin like a declaration. -/
def hasCleanNames : Node → Bool
  | .element name attributes _ =>
    isCleanToken name && ! name.toList.head?.any (['!', '?'].contains ·) &&
      attributes.all (isCleanToken ·.key)
  | _ => true

/-- The node is written and read back as it is. -/
def isSettled (node : Node) : Bool :=
  node.isClean && node.isTidy

/-- The nodes are fit to be the children of a settled element. -/
structure AreSettled (nodes : List Node) : Prop where
  tidy : isTidyList nodes = true
  settled : ∀ node ∈ nodes, node.all isSettled = true

theorem isSettled_of_isRead {node : Node} (hread : node.isRead = true)
    (hnames : node.hasCleanNames = true) : node.isSettled = true := by
  obtain ⟨hreadable, htidy⟩ := Bool.and_eq_true_iff.1 hread
  refine Bool.and_eq_true_iff.2 ⟨?_, htidy⟩
  cases node with
  | element name attributes children =>
    have hdiffer := (isReadable_element_iff.1 hreadable).2.1.2
    exact Bool.and_eq_true_iff.2 ⟨hnames, by simpa using hdiffer⟩
  | _ => exact hreadable

theorem areSettled_of_append {a b : List Node} (h : AreSettled (a ++ b)) :
    AreSettled a ∧ AreSettled b := by
  obtain ⟨hjoined, hlayout⟩ := isTidyList_iff.1 h.tidy
  obtain ⟨ha, hb⟩ := joined_of_append hjoined
  exact ⟨⟨isTidyList_iff.2 ⟨ha, fun node hnode => hlayout node (List.mem_append_left b hnode)⟩,
      fun node hnode => h.settled node (List.mem_append_left b hnode)⟩,
    ⟨isTidyList_iff.2 ⟨hb, fun node hnode => hlayout node (List.mem_append_right a hnode)⟩,
      fun node hnode => h.settled node (List.mem_append_right a hnode)⟩⟩

theorem joinTexts_of_areSettled {nodes : List Node} (h : AreSettled nodes) :
    joinTexts nodes = nodes :=
  joinTexts_of_joined (isTidyList_iff.1 h.tidy).1

end Node

namespace Element

/-- The element and everything inside it are settled. -/
def IsSettled (e : Element) : Prop :=
  e.toNode.all Node.isSettled = true

theorem isSettled_iff {e : Element} :
    e.IsSettled ↔ (Node.element e.name e.attributes []).isClean = true ∧
      Node.AreSettled e.children := by
  rw [IsSettled, toNode, Node.all_element_iff, Node.isSettled, Bool.and_eq_true]
  constructor
  · rintro ⟨⟨hclean, htidy⟩, hchildren⟩
    exact ⟨hclean, htidy, hchildren⟩
  · rintro ⟨hclean, htidy, hchildren⟩
    exact ⟨⟨hclean, htidy⟩, hchildren⟩

theorem IsSettled.children {e : Element} (h : e.IsSettled) : Node.AreSettled e.children :=
  (isSettled_iff.1 h).2

theorem isSettled_withChildren {e : Element} (he : e.IsSettled) {nodes : List Node}
    (hnodes : Node.AreSettled nodes) : (e.withChildren nodes).IsSettled :=
  isSettled_iff.2 ⟨(isSettled_iff.1 he).1, hnodes⟩

end Element

/-! ## Changing a child -/

namespace Node

variable {p : Element → Bool} {f : Element → Element}

theorem mem_of_mem_mapFirst {node : Node} {nodes : List Node} (h : node ∈ mapFirst p f nodes) :
    node ∈ nodes ∨ ∃ e : Element, e.toNode ∈ nodes ∧ node = (f e).toNode := by
  induction nodes with
  | nil => exact .inl h
  | cons child rest ih =>
    rcases eq_toNode_or p child with ⟨e, rfl, hp⟩ | hp
    · rw [mapFirst_cons_of_pos hp] at h
      rcases List.mem_cons.1 h with rfl | hmem
      · exact .inr ⟨e, List.mem_cons_self, rfl⟩
      · exact .inl (List.mem_cons_of_mem _ hmem)
    · rw [mapFirst_cons_of_neg hp] at h
      rcases List.mem_cons.1 h with rfl | hmem
      · exact .inl List.mem_cons_self
      · rcases ih hmem with hmem | ⟨e, he, heq⟩
        · exact .inl (List.mem_cons_of_mem _ hmem)
        · exact .inr ⟨e, List.mem_cons_of_mem _ he, heq⟩

theorem areSettled_mapFirst (hf : ∀ e : Element, e.IsSettled → (f e).IsSettled)
    {nodes : List Node} (h : AreSettled nodes) : AreSettled (mapFirst p f nodes) where
  tidy := (isTidyList_mapFirst nodes).trans h.tidy
  settled node hnode := by
    rcases mem_of_mem_mapFirst hnode with hmem | ⟨e, he, rfl⟩
    · exact h.settled node hmem
    · exact hf e (h.settled e.toNode he)

end Node

theorem Element.isSettled_mapChild {f : Element → Element}
    (hf : ∀ e : Element, e.IsSettled → (f e).IsSettled) (name : String) {e : Element}
    (he : e.IsSettled) : (e.mapChild name f).IsSettled :=
  Element.isSettled_withChildren he (Node.areSettled_mapFirst hf he.children)

/-! ## Finding an element -/

namespace Node

mutual

theorem isSettled_of_find? {p : Element → Bool} {e : Element} (node : Node)
    (h : node.all isSettled = true) (hfind : node.find? p = some e) : e.IsSettled := by
  match node with
  | .element name attributes children =>
    rw [find?] at hfind
    split at hfind
    · cases hfind
      exact h
    · exact isSettled_of_findInList? children (Bool.and_eq_true_iff.1 h).2 hfind
  | .text _ | .cdata _ | .comment _ => simp [find?] at hfind

theorem isSettled_of_findInList? {p : Element → Bool} {e : Element} (nodes : List Node)
    (h : allInList isSettled nodes = true) (hfind : findInList? p nodes = some e) :
    e.IsSettled := by
  match nodes with
  | [] => simp [findInList?] at hfind
  | node :: rest =>
    obtain ⟨hnode, hrest⟩ := Bool.and_eq_true_iff.1 h
    rw [findInList?] at hfind
    cases hfirst : node.find? p with
    | some found =>
      rw [hfirst] at hfind
      cases hfind
      exact isSettled_of_find? node hnode hfirst
    | none =>
      rw [hfirst] at hfind
      exact isSettled_of_findInList? rest hrest hfind

end

end Node

/-! ## Documents -/

namespace Document

/-- The document has comments in front of its root, and they and the root are settled. -/
structure IsSettled (d : Document) : Prop where
  prolog : ∀ node ∈ d.prolog, node.isComment = true ∧ node.isClean = true
  root : d.root.IsSettled

theorem isSettled_of_parse {s : String} {d : Document} (h : Document.parse s = .ok d)
    (hnames : d.root.toNode.all Node.hasCleanNames = true) : d.IsSettled where
  prolog node hnode := by
    obtain ⟨hcomment, hreadable⟩ := (isRead_of_parse h).prolog node hnode
    obtain ⟨content, rfl⟩ := Node.isComment_iff.1 hcomment
    exact ⟨hcomment, hreadable⟩
  root := by
    refine Node.all_of_imp (fun node hnode => ?_) (Node.all_and (isRead_of_parse h).root hnames)
    obtain ⟨hread, hnames⟩ := Bool.and_eq_true_iff.1 hnode
    exact Node.isSettled_of_isRead hread hnames

theorem IsSettled.isClean {d : Document} (h : d.IsSettled) : d.isClean = true := by
  refine Bool.and_eq_true_iff.2 ⟨List.all_eq_true.2 fun node hnode => ?_, ?_⟩
  · exact Bool.and_eq_true_iff.2 (h.prolog node hnode)
  · exact Node.all_of_imp (fun _ hnode => (Bool.and_eq_true_iff.1 hnode).1) h.root

theorem IsSettled.norm_eq {d : Document} (h : d.IsSettled) : d.norm = d :=
  norm_eq_self_iff.2 (Node.all_of_imp (fun _ hnode => (Bool.and_eq_true_iff.1 hnode).2) h.root)

theorem IsSettled.parse_render {d : Document} (h : d.IsSettled) :
    Document.parse d.render = .ok d := by
  rw [parse_render_of_isLegible (isLegible_of_isClean h.isClean), h.norm_eq]

theorem IsSettled.dropByteOrderMark_render {d : Document} (h : d.IsSettled) :
    dropByteOrderMark d.render = d.render :=
  Document.dropByteOrderMark_render (List.all_eq_true.2 fun node hnode => (h.prolog node hnode).1)

end Document

end ApiDocs.Xml
