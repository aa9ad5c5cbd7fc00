import Mathlib.Data.List.Flatten
import Mathlib.Data.List.Forall2
import ApiDocs.Proofs.Xml.DocumentOrder
import ApiDocs.Proofs.Xml.ReadPieces

/-!
# Elements as spans of pieces

An element is the span of the pieces from its start to its stop. What is true of the listing of a
document is true of the span of each element: that is what the input has there, with runs of texts
joined and layout left out. So an element has the texts that are directly in it in the input, except
for those that are layout; next to other text that makes no difference.
-/

namespace ApiDocs.Xml

/-- An element as pieces: what stands between its start and its stop. -/
structure Span where
  name : String
  attributes : List Attribute
  content : List Piece
  deriving DecidableEq, Repr

namespace Piece

/-- The pieces in front of the end of an element, inside of which `depth` more are open. -/
def upToStop (depth : Nat) : List Piece → List Piece
  | [] => []
  | .start name attributes :: rest => .start name attributes :: upToStop (depth + 1) rest
  | .stop name :: rest => if depth = 0 then [] else .stop name :: upToStop (depth - 1) rest
  | piece :: rest => piece :: upToStop depth rest

/-- The elements among pieces, in the order of their starts. -/
def spans : List Piece → List Span
  | [] => []
  | .start name attributes :: rest => ⟨name, attributes, upToStop 0 rest⟩ :: spans rest
  | _ :: rest => spans rest

/-- The texts that are in no other element, where `depth` others are open. -/
def ownTexts (depth : Nat) : List Piece → List String
  | [] => []
  | .start _ _ :: rest => ownTexts (depth + 1) rest
  | .stop _ :: rest => ownTexts (depth - 1) rest
  | .text content :: rest => if depth = 0 then content :: ownTexts 0 rest else ownTexts depth rest
  | _ :: rest => ownTexts depth rest

end Piece

namespace Span

/-- The texts directly in the element, as they are given. -/
def texts (span : Span) : List String :=
  Piece.ownTexts 0 span.content

/-- The texts directly in the element, with those that follow one another joined. -/
def runs (span : Span) : List String :=
  Piece.ownTexts 0 (Piece.joinRuns span.content)

def tidy (span : Span) : Span :=
  { span with content := Piece.tidy span.content }

end Span

namespace Node

def text? : Node → Option String
  | .text content => some content
  | _ => none

end Node

namespace Element

def span (e : Element) : Span :=
  ⟨e.name, e.attributes, Node.piecesOfList e.children⟩

def ownTexts (e : Element) : List String :=
  e.children.filterMap Node.text?

end Element

/-! ## Spans of pieces -/

namespace Piece

theorem joinRuns_cons_of_not_isText {piece : Piece} (h : piece.isText = false)
    (rest : List Piece) : joinRuns (piece :: rest) = piece :: joinRuns rest :=
  join_of_not_isText h (joinRuns rest)

theorem upToStop_join_text (depth : Nat) (content : String) (rest : List Piece) :
    upToStop depth (join (.text content) rest) = join (.text content) (upToStop depth rest) := by
  cases rest with
  | nil => rfl
  | cons next rest =>
    cases next with
    | stop name =>
      simp only [join, upToStop]
      split <;> rfl
    | start name attributes | text next | cdata content | comment content => rfl

theorem upToStop_joinRuns (depth : Nat) (pieces : List Piece) :
    upToStop depth (joinRuns pieces) = joinRuns (upToStop depth pieces) := by
  induction pieces generalizing depth with
  | nil => rfl
  | cons piece rest ih =>
    cases piece with
    | start name attributes =>
      rw [joinRuns_cons_of_not_isText rfl, upToStop, upToStop, ih, joinRuns_cons_of_not_isText rfl]
    | stop name =>
      rw [joinRuns_cons_of_not_isText rfl, upToStop, upToStop]
      split
      · rfl
      · rw [ih, joinRuns_cons_of_not_isText rfl]
    | text content =>
      rw [joinRuns_cons, upToStop_join_text, ih]
      simp only [upToStop, joinRuns_cons]
    | cdata content | comment content =>
      rw [joinRuns_cons_of_not_isText rfl]
      exact (congrArg _ (ih depth)).trans (joinRuns_cons_of_not_isText rfl _).symm

theorem upToStop_filter {p : Piece → Bool} (hp : ∀ piece, piece.isText = false → p piece = true)
    (depth : Nat) (pieces : List Piece) :
    upToStop depth (pieces.filter p) = (upToStop depth pieces).filter p := by
  induction pieces generalizing depth with
  | nil => rfl
  | cons piece rest ih =>
    cases piece with
    | start name attributes =>
      rw [List.filter_cons_of_pos (hp _ rfl), upToStop, upToStop, ih,
        List.filter_cons_of_pos (hp _ rfl)]
    | stop name =>
      rw [List.filter_cons_of_pos (hp _ rfl), upToStop, upToStop]
      split
      · rfl
      · rw [ih, List.filter_cons_of_pos (hp _ rfl)]
    | text content | cdata content | comment content =>
      simp only [upToStop, List.filter_cons]
      split
      · simp only [upToStop, ih]
      · exact ih depth

theorem upToStop_withinRoot {depth opened : Nat} (h : depth < opened) (ended : Bool)
    (pieces : List Piece) :
    upToStop depth (withinRoot opened ended pieces) = upToStop depth pieces := by
  -- inside of an element some are open, so nothing is left out
  have hopened : opened ≠ 0 := by omega
  induction pieces generalizing depth opened ended with
  | nil => rfl
  | cons piece rest ih =>
    cases piece with
    | start name attributes =>
      rw [withinRoot, upToStop, upToStop, ih (Nat.succ_lt_succ h) ended (by omega)]
    | stop name =>
      rw [withinRoot, upToStop, upToStop]
      split
      · rfl
      · rw [ih (by omega) _ (by omega)]
    | text content | cdata content | comment content =>
      simp [withinRoot, upToStop, hopened, ih h ended hopened]

theorem spans_join_text (content : String) (rest : List Piece) :
    spans (join (.text content) rest) = spans rest := by
  cases rest with
  | nil => rfl
  | cons next rest => cases next <;> rfl

theorem spans_joinRuns (pieces : List Piece) :
    spans (joinRuns pieces) =
      (spans pieces).map fun span => { span with content := joinRuns span.content } := by
  induction pieces with
  | nil => rfl
  | cons piece rest ih =>
    cases piece with
    | start name attributes =>
      rw [joinRuns_cons_of_not_isText rfl, spans, spans, ih, upToStop_joinRuns, List.map_cons]
    | text content =>
      rw [joinRuns_cons, spans_join_text, ih]
      rfl
    | stop name | cdata content | comment content =>
      rw [joinRuns_cons_of_not_isText rfl]
      exact ih

theorem spans_filter {p : Piece → Bool} (hp : ∀ piece, piece.isText = false → p piece = true)
    (pieces : List Piece) :
    spans (pieces.filter p) =
      (spans pieces).map fun span => { span with content := span.content.filter p } := by
  induction pieces with
  | nil => rfl
  | cons piece rest ih =>
    cases piece with
    | start name attributes =>
      rw [List.filter_cons_of_pos (hp _ rfl), spans, spans, ih, upToStop_filter hp, List.map_cons]
    | stop name | text content | cdata content | comment content =>
      rw [List.filter_cons]
      split
      · exact ih
      · exact ih

theorem spans_tidy (pieces : List Piece) : spans (tidy pieces) = (spans pieces).map Span.tidy := by
  rw [tidy, spans_filter fun piece hpiece => by simp [isLayout_of_not_isText hpiece],
    spans_joinRuns, List.map_map]
  rfl

theorem spans_withinRoot (opened : Nat) (ended : Bool) (pieces : List Piece) :
    spans (withinRoot opened ended pieces) = spans pieces := by
  induction pieces generalizing opened ended with
  | nil => rfl
  | cons piece rest ih =>
    cases piece with
    | start name attributes =>
      rw [withinRoot, spans, spans, ih, upToStop_withinRoot (Nat.succ_pos opened)]
    | stop name => exact ih _ _
    | text content | cdata content | comment content =>
      simp only [withinRoot]
      split
      · exact ih _ _
      · exact ih _ _

/-! ## Texts of pieces -/

theorem ownTexts_filter (depth : Nat) (pieces : List Piece) :
    ownTexts depth (pieces.filter (! ·.isLayout)) =
      (ownTexts depth pieces).filter fun run => ! (text run).isLayout := by
  induction pieces generalizing depth with
  | nil => rfl
  | cons piece rest ih =>
    cases piece with
    | text content =>
      rw [List.filter_cons]
      cases hlayout : (text content).isLayout <;> by_cases hdepth : depth = 0 <;>
        simp [ownTexts, hlayout, hdepth, ih]
    | start name attributes | stop name | cdata content | comment content => exact ih _

theorem join_ownTexts_join_text (depth : Nat) (content : String) (rest : List Piece) :
    String.join (ownTexts depth (join (.text content) rest)) =
      String.join (ownTexts depth (.text content :: rest)) := by
  cases rest with
  | nil => rfl
  | cons next rest =>
    cases next with
    | text next => cases depth <;> simp [join, ownTexts, String.append_assoc]
    | start name attributes | stop name | cdata content | comment content => rfl

theorem join_ownTexts_joinRuns (depth : Nat) (pieces : List Piece) :
    String.join (ownTexts depth (joinRuns pieces)) = String.join (ownTexts depth pieces) := by
  induction pieces generalizing depth with
  | nil => rfl
  | cons piece rest ih =>
    cases piece with
    | text content =>
      rw [joinRuns_cons, join_ownTexts_join_text, ownTexts, ownTexts]
      split
      · rw [String.join_cons, String.join_cons, ih]
      · exact ih depth
    | start name attributes | stop name | cdata content | comment content =>
      rw [joinRuns_cons_of_not_isText rfl]
      exact ih _

end Piece

/-! ## Spans of trees -/

namespace Node

open Piece (upToStop spans)

mutual

theorem upToStop_pieces (node : Node) (depth : Nat) (rest : List Piece) :
    upToStop depth (node.pieces ++ rest) = node.pieces ++ upToStop depth rest := by
  match node with
  | .element name attributes children =>
    simp only [pieces, List.cons_append, List.append_assoc, upToStop,
      upToStop_piecesOfList children, List.nil_append]
    rfl
  | .text _ | .cdata _ | .comment _ => rfl

theorem upToStop_piecesOfList (nodes : List Node) (depth : Nat) (rest : List Piece) :
    upToStop depth (piecesOfList nodes ++ rest) = piecesOfList nodes ++ upToStop depth rest := by
  match nodes with
  | [] => rfl
  | node :: others =>
    rw [piecesOfList, List.append_assoc, upToStop_pieces node, upToStop_piecesOfList others,
      List.append_assoc]

end

mutual

/-- The spans of the listing of a tree are those of its elements. -/
theorem spans_pieces (node : Node) (rest : List Piece) :
    spans (node.pieces ++ rest) = node.elements.map Element.span ++ spans rest := by
  match node with
  | .element name attributes children =>
    have hcontent : upToStop 0 (piecesOfList children ++ .stop name :: rest) =
        piecesOfList children := by
      rw [upToStop_piecesOfList children]
      simp [upToStop]
    rw [pieces, List.cons_append, List.append_assoc, List.singleton_append, spans, hcontent,
      spans_piecesOfList children, elements, List.map_cons, List.cons_append]
    rfl
  | .text _ | .cdata _ | .comment _ => rfl

theorem spans_piecesOfList (nodes : List Node) (rest : List Piece) :
    spans (piecesOfList nodes ++ rest) =
      (elementsOfList nodes).map Element.span ++ spans rest := by
  match nodes with
  | [] => rfl
  | node :: others =>
    rw [piecesOfList, List.append_assoc, spans_pieces node, spans_piecesOfList others,
      elementsOfList, List.map_append, List.append_assoc]

end

mutual

theorem ownTexts_pieces (node : Node) (depth : Nat) (rest : List Piece) :
    Piece.ownTexts depth (node.pieces ++ rest) =
      (if depth = 0 then node.text?.toList else []) ++ Piece.ownTexts depth rest := by
  match node with
  | .element name attributes children =>
    simp only [pieces, List.cons_append, List.append_assoc, Piece.ownTexts,
      ownTexts_piecesOfList children, List.nil_append]
    cases depth <;> rfl
  | .text content => cases depth <;> rfl
  | .cdata _ | .comment _ => cases depth <;> rfl

theorem ownTexts_piecesOfList (nodes : List Node) (depth : Nat) (rest : List Piece) :
    Piece.ownTexts depth (piecesOfList nodes ++ rest) =
      (if depth = 0 then nodes.filterMap text? else []) ++ Piece.ownTexts depth rest := by
  match nodes with
  | [] => cases depth <;> rfl
  | node :: others =>
    rw [piecesOfList, List.append_assoc, ownTexts_pieces node, ownTexts_piecesOfList others]
    cases depth with
    | zero => cases h : node.text? <;> simp [h]
    | succ depth => rfl

end

end Node

theorem Element.ownTexts_eq (e : Element) : e.ownTexts = e.span.texts := by
  have h := Node.ownTexts_piecesOfList e.children 0 []
  simpa [ownTexts, span, Span.texts, Piece.ownTexts] using h.symm

theorem Document.spans_pieces {d : Document} (h : d.IsRead) :
    Piece.spans d.pieces = d.root.toNode.elements.map Element.span := by
  have hprolog : ∀ nodes : List Node, (∀ node ∈ nodes, node.isComment = true) →
      Node.elementsOfList nodes = [] := by
    intro nodes hnodes
    induction nodes with
    | nil => rfl
    | cons node rest ih =>
      obtain ⟨hnode, hrest⟩ := List.forall_mem_cons.1 hnodes
      obtain ⟨content, rfl⟩ := Node.isComment_iff.1 hnode
      exact ih hrest
  have hroot := Node.spans_pieces d.root.toNode []
  rw [List.append_nil] at hroot
  rw [pieces, Node.spans_piecesOfList, hprolog _ fun node hnode => (h.prolog node hnode).1, hroot]
  simp [Piece.spans]

/-! ## Texts of elements -/

/-- The element `e` is what is made of a span of the input. -/
structure Span.IsReadAs (span : Span) (e : Element) : Prop where
  name : e.name = span.name
  attributes : e.attributes = span.attributes
  /-- It has the texts of the span, joined, but for layout. -/
  ownTexts : e.ownTexts = span.runs.filter fun run => ! (Piece.text run).isLayout
  /-- So it has all the characters unless one of them is layout. -/
  join_ownTexts : String.join e.ownTexts = String.join span.texts ↔
    ∀ run ∈ span.runs, (Piece.text run).isLayout = false

theorem join_filter_eq_iff {p : String → Bool} {texts : List String}
    (h : ∀ text ∈ texts, p text = false → text ≠ "") :
    String.join (texts.filter p) = String.join texts ↔ ∀ text ∈ texts, p text = true := by
  rw [← List.filter_eq_self]
  refine ⟨fun hjoin => ?_, fun hall => by rw [hall]⟩
  induction texts with
  | nil => rfl
  | cons text rest ih =>
    obtain ⟨htext, hrest⟩ := List.forall_mem_cons.1 h
    cases hp : p text with
    | true =>
      rw [List.filter_cons_of_pos hp, String.join_cons, String.join_cons] at hjoin
      rw [List.filter_cons_of_pos hp, ih hrest ((String.append_right_inj text).1 hjoin)]
    | false =>
      -- without the characters of the text, fewer are left
      rw [List.filter_cons_of_neg (by simp [hp]), String.join_cons] at hjoin
      have hfewer : (String.join (rest.filter p)).length ≤ (String.join rest).length := by
        have hsublist := (List.filter_sublist (p := p) (l := rest)).flatMap String.toList
        simpa [← String.length_toList] using hsublist.length_le
      have hlength := congrArg String.length hjoin
      rw [String.length_append] at hlength
      have hempty : text.length = 0 := by omega
      exact absurd (String.length_eq_zero_iff.1 hempty) (htext hp)

theorem Span.isReadAs {span : Span} {e : Element} (h : e.span = span.tidy) : span.IsReadAs e := by
  have htexts : e.ownTexts = span.runs.filter fun run => ! (Piece.text run).isLayout := by
    rw [e.ownTexts_eq, h]
    exact Piece.ownTexts_filter 0 (Piece.joinRuns span.content)
  refine ⟨congrArg Span.name h, congrArg Span.attributes h, htexts, ?_⟩
  have hall : String.join span.texts = String.join span.runs :=
    (Piece.join_ownTexts_joinRuns 0 span.content).symm
  rw [htexts, hall, join_filter_eq_iff]
  · simp
  · intro run _ hrun hempty
    subst hempty
    cases hrun

/-- The elements of a document are read from the spans of the input, one from each: with the texts
directly in it, but for layout. Saving keeps what was read, if the written tags hold. -/
theorem Document.texts_of_parse {s : String} {d : Document} (h : Document.parse s = .ok d) :
    ((Reading.ofString s).fault = none ∧
      ∃ taken, (Reading.ofString s).events.mapM Event.pieces? = some taken ∧
        List.Forall₂ Span.IsReadAs (Piece.spans taken.flatten) d.root.toNode.elements) ∧
    (d.root.toNode.all Node.holds = true → Document.parse d.render = .ok d) := by
  have hread := isRead_of_parse h
  obtain ⟨hfault, taken, htaken, hpieces⟩ :=
    Draft.pieces_of_readOn (d := {}) ⟨by simp, by simp, by simp⟩ h
  constructor
  · refine ⟨hfault, taken, htaken, ?_⟩
    have hspans : d.root.toNode.elements.map Element.span =
        (Piece.spans taken.flatten).map Span.tidy := by
      rw [← spans_pieces hread, hpieces, Piece.spans_tidy]
      exact congrArg _ (Piece.spans_withinRoot 0 false taken.flatten)
    rw [← List.forall₂_eq_eq_eq, List.forall₂_map_left_iff, List.forall₂_map_right_iff] at hspans
    exact hspans.flip.imp fun span e hspan => Span.isReadAs hspan
  · intro hholds
    rw [parse_render_of_isLegible (hread.isLegible hholds), norm_eq_self_iff.2 hread.isNormal]

/-- A line that is indented, prose with a blank between two elements, and a reference in it. -/
theorem Document.texts_of_parse_prose :
    let s := "<r>\n  <p>See <b>x</b> <b>y</b>\n&amp; <!----> now</p></r>"
    let p : Element := ⟨"p", [], [.text "See ", .element "b" [] [.text "x"], .text " ",
      .element "b" [] [.text "y"], .text "\n& ", .comment "", .text " now"]⟩
    let d : Document := ⟨[], ⟨"r", [], [p.toNode]⟩⟩
    Document.parse s = .ok d ∧ (Reading.ofString s).fault = none ∧
      (∃ taken, (Reading.ofString s).events.mapM Event.pieces? = some taken ∧
        List.Forall₂ Span.IsReadAs (Piece.spans taken.flatten) d.root.toNode.elements) ∧
      d.root.ownTexts = [] ∧ p.ownTexts = ["See ", " ", "\n& ", " now"] ∧
      Document.parse d.render = .ok d := by
  intro s p d
  have hparse : Document.parse s = .ok d := by decide +kernel
  obtain ⟨⟨hfault, hspans⟩, hsaved⟩ := Document.texts_of_parse hparse
  exact ⟨hparse, hfault, hspans, by decide, by decide, hsaved (by decide)⟩

/-- A line break between two elements is layout, even if they stand in prose. -/
theorem Document.texts_of_parse_brokenLine :
    let s := "<p>See <b>x</b>\n<b>y</b> now</p>"
    let d : Document := ⟨[], ⟨"p", [], [.text "See ", .element "b" [] [.text "x"],
      .element "b" [] [.text "y"], .text " now"]⟩⟩
    Document.parse s = .ok d ∧
      ((Reading.ofString s).events.mapM Event.pieces?).map
          (fun taken => (Piece.spans taken.flatten).head?.map fun p => (p.name, p.texts)) =
        some (some ("p", ["See ", "\n", " now"])) ∧
      String.join d.root.ownTexts ≠ String.join ["See ", "\n", " now"] ∧
      d.render = "<p>See <b>x</b><b>y</b> now</p>\n" := by
  decide +kernel

end ApiDocs.Xml
