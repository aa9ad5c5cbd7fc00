/-!
# XML trees

A document is the list of comments before its root, and the root element. An element holds
its attributes in written order and its child nodes. Equality of trees is decidable.
-/

namespace ApiDocs.Xml

/-- An attribute with its value in plain characters. -/
structure Attribute where
  key : String
  value : String
  deriving DecidableEq, Repr

/-- A node of a tree. -/
inductive Node where
  | element (name : String) (attributes : List Attribute) (children : List Node)
  | text (content : String)
  | cdata (content : String)
  | comment (content : String)
  deriving Repr, Inhabited

namespace Node

mutual

/-- Equality of nodes, decided child by child. -/
def decEq : (a b : Node) → Decidable (a = b)
  | .element n as cs, .element m bs ds =>
    if hn : n = m then
      if ha : as = bs then
        match decEqList cs ds with
        | .isTrue h => .isTrue (by rw [hn, ha, h])
        | .isFalse h => .isFalse (by simp [h])
      else .isFalse (by simp [ha])
    else .isFalse (by simp [hn])
  | .text s, .text t => if h : s = t then .isTrue (by rw [h]) else .isFalse (by simp [h])
  | .cdata s, .cdata t => if h : s = t then .isTrue (by rw [h]) else .isFalse (by simp [h])
  | .comment s, .comment t => if h : s = t then .isTrue (by rw [h]) else .isFalse (by simp [h])
  | .element .., .text _ | .element .., .cdata _ | .element .., .comment _ => .isFalse (by simp)
  | .text _, .element .. | .text _, .cdata _ | .text _, .comment _ => .isFalse (by simp)
  | .cdata _, .element .. | .cdata _, .text _ | .cdata _, .comment _ => .isFalse (by simp)
  | .comment _, .element .. | .comment _, .text _ | .comment _, .cdata _ => .isFalse (by simp)

/-- Equality of lists of nodes. -/
def decEqList : (as bs : List Node) → Decidable (as = bs)
  | [], [] => .isTrue rfl
  | [], _ :: _ => .isFalse (by simp)
  | _ :: _, [] => .isFalse (by simp)
  | a :: as, b :: bs =>
    match decEq a b with
    | .isTrue h =>
      match decEqList as bs with
      | .isTrue hs => .isTrue (by rw [h, hs])
      | .isFalse hs => .isFalse (by simp [hs])
    | .isFalse h => .isFalse (by simp [h])

end

instance : DecidableEq Node := decEq

end Node

/-- An element on its own: the content of a node that is an element. -/
structure Element where
  name : String
  attributes : List Attribute := []
  children : List Node := []
  deriving DecidableEq, Repr, Inhabited

/-- The element as a node of a tree. -/
def Element.toNode (e : Element) : Node :=
  .element e.name e.attributes e.children

/-- The element that a node is, if it is one. -/
def Node.element? : Node → Option Element
  | .element name attributes children => some ⟨name, attributes, children⟩
  | _ => none

@[simp] theorem Element.element?_toNode (e : Element) : e.toNode.element? = some e := rfl

theorem Node.element?_eq_some_iff {n : Node} {e : Element} :
    n.element? = some e ↔ n = e.toNode := by
  cases n <;> cases e <;> simp [Node.element?, Element.toNode]

/-- A document: the comments before the root, and the root. -/
structure Document where
  prolog : List Node := []
  root : Element
  deriving DecidableEq, Repr, Inhabited

end ApiDocs.Xml
