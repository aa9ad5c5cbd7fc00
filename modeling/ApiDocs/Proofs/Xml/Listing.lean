import ApiDocs.Proofs.Xml.ReadTree

/-!
# Documents piece by piece

A tree can be listed in the order in which it is written: where an element starts, what is in it,
and where it stops. The listing of a document that was read is what its events give, less what
stands outside the root, with texts that follow one another joined and layout left out. So reading
loses nothing else, and makes nothing up.
-/

namespace ApiDocs.Xml

/-- A piece of a document in written order, with its attributes and references resolved. -/
inductive Piece where
  | start (name : String) (attributes : List Attribute)
  | stop (name : String)
  | text (content : String)
  | cdata (content : String)
  | comment (content : String)
  deriving DecidableEq, Repr

namespace Piece

def isText : Piece → Bool
  | .text _ => true
  | _ => false

/-- Blank text with a line break. -/
def isLayout : Piece → Bool
  | .text content => content.toList.all Text.isBlank && content.toList.contains '\n'
  | _ => false

/-- Puts a piece in front of others. A text becomes one with the text behind it, if there is one. -/
def join : Piece → List Piece → List Piece
  | .text content, .text next :: rest => .text (content ++ next) :: rest
  | piece, rest => piece :: rest

/-- Makes one text of every run of adjacent texts. -/
def joinRuns (pieces : List Piece) : List Piece :=
  pieces.foldr join []

/-- Joins runs of texts, and leaves out those that are layout. -/
def tidy (pieces : List Piece) : List Piece :=
  (joinRuns pieces).filter (! ·.isLayout)

/-- The pieces from a place on where `depth` elements are open, without those that a document does
not keep: texts and CDATA outside the root, and comments behind it. The root has been closed if
`ended`. -/
def withinRoot (depth : Nat) (ended : Bool) : List Piece → List Piece
  | [] => []
  | .start name attributes :: rest => .start name attributes :: withinRoot (depth + 1) ended rest
  | .stop name :: rest => .stop name :: withinRoot (depth - 1) (ended || depth = 1) rest
  | .comment content :: rest =>
    if depth = 0 && ended then withinRoot depth ended rest
    else .comment content :: withinRoot depth ended rest
  | piece :: rest =>
    if depth = 0 then withinRoot depth ended rest else piece :: withinRoot depth ended rest

end Piece

namespace Node

mutual

/-- The tree as pieces. -/
def pieces : Node → List Piece
  | .element name attributes children =>
    .start name attributes :: (piecesOfList children ++ [.stop name])
  | .text content => [.text content]
  | .cdata content => [.cdata content]
  | .comment content => [.comment content]

def piecesOfList : List Node → List Piece
  | [] => []
  | node :: rest => node.pieces ++ piecesOfList rest

end

end Node

/-- The comments in front of the root, and the root, as pieces. -/
def Document.pieces (d : Document) : List Piece :=
  Node.piecesOfList d.prolog ++ d.root.toNode.pieces

/-- The pieces that an event gives. There are none if an attribute or a reference cannot be
resolved. -/
def Event.pieces? : Event → Option (List Piece)
  | .startTag tag => tag.attributes.toOption.map fun attributes => [.start tag.name attributes]
  | .emptyTag tag =>
    tag.attributes.toOption.map fun attributes => [.start tag.name attributes, .stop tag.name]
  | .endTag name => some [.stop name]
  | .text content => some [.text content]
  | .reference name => (contentReference? name).map fun c => [.text c.toString]
  | .cdata content => some [.cdata content]
  | .comment content => some [.comment content]
  | .instruction | .doctype => some []

/-! ## Joining and tidying pieces -/

namespace Piece

theorem join_of_not_isText {piece : Piece} (h : piece.isText = false) (rest : List Piece) :
    join piece rest = piece :: rest := by
  cases piece <;> simp_all [isText, join]

theorem join_of_head? (piece : Piece) {rest : List Piece} (h : rest.head?.any isText = false) :
    join piece rest = piece :: rest := by
  rcases rest with _ | ⟨next, rest⟩
  · cases piece <;> rfl
  · cases piece <;> cases next <;> simp_all [isText, join]

theorem join_text_join_text (s t : String) (rest : List Piece) :
    join (.text s) (join (.text t) rest) = join (.text (s ++ t)) rest := by
  rcases rest with _ | ⟨_ | _ | next | _ | _, rest⟩ <;> simp [join, String.append_assoc]

theorem joinRuns_cons (piece : Piece) (rest : List Piece) :
    joinRuns (piece :: rest) = join piece (joinRuns rest) := rfl

theorem joinRuns_text_text (s t : String) (rest : List Piece) :
    joinRuns (.text s :: .text t :: rest) = joinRuns (.text (s ++ t) :: rest) :=
  join_text_join_text s t (joinRuns rest)

theorem joinRuns_append_congr {b c : List Piece} (h : joinRuns b = joinRuns c) (a : List Piece) :
    joinRuns (a ++ b) = joinRuns (a ++ c) := by
  simp only [joinRuns, List.foldr_append] at h ⊢
  rw [h]

/-- No text is joined across a piece that is none. -/
theorem joinRuns_append_cons {piece : Piece} (h : piece.isText = false) (a b : List Piece) :
    joinRuns (a ++ piece :: b) = joinRuns a ++ piece :: joinRuns b := by
  induction a with
  | nil => exact join_of_not_isText h (joinRuns b)
  | cons first a ih =>
    rw [List.cons_append, joinRuns_cons, joinRuns_cons, ih]
    rcases joinRuns a with _ | ⟨next, rest⟩
    · have hhead : (piece :: joinRuns b).head?.any isText = false := by simp [h]
      have hnil : join first [] = [first] := join_of_head? first rfl
      rw [List.nil_append, join_of_head? first hhead, hnil]
      rfl
    · cases first <;> cases next <;> rfl

theorem head?_joinRuns {pieces : List Piece} (h : pieces.head?.any isText = false) :
    (joinRuns pieces).head?.any isText = false := by
  rcases pieces with _ | ⟨piece, rest⟩
  · rfl
  · have hpiece : piece.isText = false := by simpa using h
    rw [joinRuns_cons, join_of_not_isText hpiece]
    exact h

theorem isLayout_of_not_isText {piece : Piece} (h : piece.isText = false) :
    piece.isLayout = false := by
  cases piece <;> simp_all [isText, isLayout]

@[simp] theorem tidy_nil : tidy [] = [] := rfl

theorem tidy_append_cons {piece : Piece} (h : piece.isText = false) (a b : List Piece) :
    tidy (a ++ piece :: b) = tidy a ++ piece :: tidy b := by
  have hlayout := isLayout_of_not_isText h
  rw [tidy, joinRuns_append_cons h, List.filter_append, List.filter_cons_of_pos (by simp [hlayout])]
  rfl

theorem tidy_cons {piece : Piece} (h : piece.isText = false) (rest : List Piece) :
    tidy (piece :: rest) = piece :: tidy rest :=
  tidy_append_cons h [] rest

theorem tidy_text_cons (content : String) {rest : List Piece}
    (h : rest.head?.any isText = false) :
    tidy (.text content :: rest) =
      if (text content).isLayout then tidy rest else .text content :: tidy rest := by
  have hjoin : joinRuns (.text content :: rest) = .text content :: joinRuns rest :=
    join_of_head? (.text content) (head?_joinRuns h)
  rw [tidy, hjoin, List.filter_cons]
  cases (text content).isLayout <;> rfl

theorem tidy_append_congr {b c : List Piece} (h : joinRuns b = joinRuns c) (a : List Piece) :
    tidy (a ++ b) = tidy (a ++ c) := by
  rw [tidy, joinRuns_append_congr h, tidy]

end Piece

/-! ## Trees as pieces -/

namespace Node

open Piece (joinRuns)

theorem piecesOfList_append (a b : List Node) :
    piecesOfList (a ++ b) = piecesOfList a ++ piecesOfList b := by
  induction a with
  | nil => rfl
  | cons node rest ih => rw [List.cons_append, piecesOfList, piecesOfList, ih, List.append_assoc]

theorem piecesOfList_singleton (node : Node) : piecesOfList [node] = node.pieces := by
  simp [piecesOfList]

theorem head?_piecesOfList (nodes : List Node) :
    (piecesOfList nodes).head?.any Piece.isText = nodes.head?.any isText := by
  rcases nodes with _ | ⟨node, rest⟩
  · rfl
  · cases node <;> simp [piecesOfList, pieces, Piece.isText, isText]

theorem isLayout_text (content : String) :
    (Piece.text content).isLayout = (text content).isIndentation :=
  Bool.and_comm _ _

theorem tidy_pieces_append {node : Node} (h : node.isText = false) (rest : List Piece) :
    Piece.tidy (node.pieces ++ rest) = Piece.tidy node.pieces ++ Piece.tidy rest := by
  cases node with
  | element name attributes children =>
    rw [pieces, List.cons_append, List.append_assoc, Piece.tidy_cons rfl, Piece.tidy_cons rfl,
      List.singleton_append, Piece.tidy_append_cons rfl, Piece.tidy_append_cons rfl]
    simp
  | text content => cases h
  | cdata content | comment content =>
    rw [pieces, List.singleton_append, Piece.tidy_cons rfl, Piece.tidy_cons rfl]
    rfl

/-- To leave layout out of the children is to leave it out of their listing. -/
theorem tidy_piecesOfList_filter {nodes : List Node} (h : Joined nodes) :
    Piece.tidy (piecesOfList (nodes.filter (! ·.isIndentation))) =
      Piece.tidy (piecesOfList nodes) := by
  induction nodes with
  | nil => rfl
  | cons node rest ih =>
    cases node with
    | text content =>
      obtain ⟨hcontent, hhead, hrest⟩ := h
      have hpieces : (piecesOfList rest).head?.any Piece.isText = false :=
        (head?_piecesOfList rest).trans hhead
      rw [piecesOfList, pieces, List.singleton_append, Piece.tidy_text_cons content hpieces,
        isLayout_text, ← ih hrest]
      cases hlayout : (text content).isIndentation with
      | true => rw [List.filter_cons_of_neg (by simp [hlayout]), if_pos rfl]
      | false =>
        -- what is left behind the text does not begin with a text either
        have hjoined : Joined ((text content :: rest).filter (! ·.isIndentation)) := by
          refine joined_filter (fun node hnode => ?_) ⟨hcontent, hhead, hrest⟩
          cases node <;> simp_all [isText, isIndentation]
        rw [List.filter_cons_of_pos (by simp [hlayout])] at hjoined ⊢
        have hleft : (piecesOfList (rest.filter (! ·.isIndentation))).head?.any
            Piece.isText = false :=
          (head?_piecesOfList _).trans hjoined.2.1
        rw [piecesOfList, pieces, List.singleton_append, Piece.tidy_text_cons content hleft,
          isLayout_text, hlayout]
    | element | cdata | comment =>
      rw [List.filter_cons_of_pos (by rfl), piecesOfList, piecesOfList, tidy_pieces_append rfl,
        tidy_pieces_append rfl, ih h]

/-- A text that is pushed to the children comes behind their listing, and joins its last text. -/
theorem joinRuns_piecesOfList_push {content : String} (h : content ≠ "") (nodes : List Node)
    (rest : List Piece) :
    joinRuns (piecesOfList (push nodes (.text content)) ++ rest) =
      joinRuns (piecesOfList nodes ++ .text content :: rest) := by
  induction nodes with
  | nil => simp [push, h, piecesOfList, pieces]
  | cons node nodes ih =>
    rcases nodes with _ | ⟨next, nodes⟩
    · cases node with
      | text last =>
        rw [push, piecesOfList_singleton, piecesOfList_singleton]
        exact (Piece.joinRuns_text_text last content rest).symm
      | element | cdata | comment => simp [push, h, piecesOfList, pieces]
    · rw [push_cons_cons, piecesOfList, piecesOfList, List.append_assoc, List.append_assoc]
      exact Piece.joinRuns_append_congr ih node.pieces

mutual

/-- The listing of a tree in normal form has nothing to tidy. -/
theorem tidy_pieces {node : Node} (htext : node.isText = false) (h : node.all isTidy = true) :
    Piece.tidy node.pieces = node.pieces := by
  match node with
  | .element name attributes children =>
    obtain ⟨htidy, hchildren⟩ := Bool.and_eq_true_iff.1 h
    rw [pieces, Piece.tidy_cons rfl, Piece.tidy_append_cons rfl,
      tidy_piecesOfList children htidy hchildren]
    rfl
  | .cdata _ | .comment _ => exact Piece.tidy_cons rfl []

theorem tidy_piecesOfList (nodes : List Node) (htidy : isTidyList nodes = true)
    (h : allInList isTidy nodes = true) : Piece.tidy (piecesOfList nodes) = piecesOfList nodes := by
  match nodes with
  | [] => rfl
  | .text content :: rest =>
    obtain ⟨-, hrest⟩ := Bool.and_eq_true_iff.1 h
    simp only [isTidyList, Bool.and_eq_true, Bool.not_eq_true', decide_eq_true_eq] at htidy
    obtain ⟨⟨⟨-, hlayout⟩, hhead⟩, htidy⟩ := htidy
    rw [piecesOfList, pieces, List.singleton_append,
      Piece.tidy_text_cons content ((head?_piecesOfList rest).trans hhead), isLayout_text, hlayout,
      tidy_piecesOfList rest htidy hrest]
    rfl
  | .element name attributes children :: rest =>
    obtain ⟨hnode, hrest⟩ := Bool.and_eq_true_iff.1 h
    rw [piecesOfList, tidy_pieces_append rfl, tidy_pieces rfl hnode,
      tidy_piecesOfList rest htidy hrest]
  | .cdata content :: rest | .comment content :: rest =>
    obtain ⟨hnode, hrest⟩ := Bool.and_eq_true_iff.1 h
    rw [piecesOfList, tidy_pieces_append rfl, tidy_pieces rfl hnode,
      tidy_piecesOfList rest htidy hrest]

end

end Node

theorem Node.tidy_piecesOfList_append {nodes : List Node}
    (h : ∀ node ∈ nodes, node.isComment = true) (rest : List Piece) :
    Piece.tidy (piecesOfList nodes ++ rest) = piecesOfList nodes ++ Piece.tidy rest := by
  induction nodes with
  | nil => rfl
  | cons node nodes ih =>
    obtain ⟨hnode, hothers⟩ := List.forall_mem_cons.1 h
    obtain ⟨content, rfl⟩ := isComment_iff.1 hnode
    rw [piecesOfList, List.append_assoc, pieces, List.singleton_append, Piece.tidy_cons rfl,
      ih hothers]
    rfl

theorem Document.IsRead.tidy_pieces {d : Document} (h : d.IsRead) :
    Piece.tidy d.pieces = d.pieces := by
  have hcomments : ∀ node ∈ d.prolog, node.isComment = true := fun node hnode =>
    (h.prolog node hnode).1
  rw [pieces, Node.tidy_piecesOfList_append hcomments, Node.tidy_pieces rfl h.isNormal]

end ApiDocs.Xml
