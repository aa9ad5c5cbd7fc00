import ApiDocs.Text.Blank
import ApiDocs.Xml.Node

/-!
# Elements: looking things up and changing them

Every lookup by name takes the first match in document order. `Node.push` is the one way in
which children are appended: adjacent texts join and empty texts vanish, so a child list that
was built by it reads back as it was written.
-/

namespace ApiDocs.Xml

namespace Node

/-- Text and CDATA carry characters of the document. -/
def isTextual : Node → Bool
  | .text _ | .cdata _ => true
  | _ => false

/-- Text that only lays the document out: it is blank and breaks the line. -/
def isIndentation : Node → Bool
  | .text content => content.toList.contains '\n' && content.toList.all Text.isBlank
  | _ => false

/-- Appends a node. A text joins the text before it, and an empty text adds nothing. -/
def push : List Node → Node → List Node
  | [], .text content => if content = "" then [] else [.text content]
  | [.text last], .text content => [.text (last ++ content)]
  | [], node => [node]
  | child :: rest, node => child :: push rest node

/-- The nodes as they stand after being appended one by one to no children. -/
def merge (nodes : List Node) : List Node :=
  nodes.foldl push []

mutual

/-- The characters of a node and all its descendants; comments have none. -/
def innerText : Node → String
  | .element _ _ children => innerTextOfList children
  | .text content | .cdata content => content
  | .comment _ => ""

/-- The characters of the nodes, in order. -/
def innerTextOfList : List Node → String
  | [] => ""
  | node :: rest => node.innerText ++ innerTextOfList rest

end

mutual

/-- The first element in document order that satisfies `p`, the node itself included. -/
def find? (p : Element → Bool) : Node → Option Element
  | .element name attributes children =>
    if p ⟨name, attributes, children⟩ then some ⟨name, attributes, children⟩
    else findInList? p children
  | _ => none

/-- The first element in document order, among the nodes and their descendants, that
satisfies `p`. -/
def findInList? (p : Element → Bool) : List Node → Option Element
  | [] => none
  | node :: rest => node.find? p <|> findInList? p rest

end

/-- Changes the first element among the nodes that satisfies `p`. There is no result if no
element does, or if the change itself has none. -/
def changeFirst? (p : Element → Bool) (change : Element → Option Element) :
    List Node → Option (List Node)
  | [] => none
  | node :: rest =>
    match node.element? with
    | some e =>
      if p e then (change e).map fun changed => changed.toNode :: rest
      else (changeFirst? p change rest).map (node :: ·)
    | none => (changeFirst? p change rest).map (node :: ·)

end Node

namespace Element

/-- The value of the first attribute with this key. -/
def attribute? (e : Element) (key : String) : Option String :=
  (e.attributes.find? (·.key = key)).map (·.value)

/-- The child nodes that are elements. -/
def childElements (e : Element) : List Element :=
  e.children.filterMap Node.element?

/-- The first child element with this name. -/
def child? (e : Element) (name : String) : Option Element :=
  e.childElements.find? (·.name = name)

/-- Follows a path of names, taking the first child of each name. -/
def descend? (e : Element) : List String → Option Element
  | [] => some e
  | name :: path => (e.child? name).bind (·.descend? path)

/-- Changes the first child element that satisfies `p`. There is no result if there is none, or
if the change has none. -/
def changeChild? (p : Element → Bool) (change : Element → Option Element) (e : Element) :
    Option Element :=
  (Node.changeFirst? p change e.children).map fun children => { e with children }

/-- Changes the element that `descend?` finds. There is no result if it finds none. -/
def change? (change : Element → Element) : List String → Element → Option Element
  | [], e => some (change e)
  | name :: path, e => e.changeChild? (·.name = name) (change? change path)

/-- The first element in document order that satisfies `p`, `e` itself included. -/
def find? (p : Element → Bool) (e : Element) : Option Element :=
  e.toNode.find? p

/-- The characters of all descendants. -/
def text (e : Element) : String :=
  Node.innerTextOfList e.children

/-- The element without children. -/
def clear (e : Element) : Element :=
  { e with children := [] }

/-- The element with a text as its only content. -/
def setText (content : String) (e : Element) : Element :=
  { e with children := if content = "" then [] else [.text content] }

/-- Appends a node, joining adjacent texts. -/
def push (e : Element) (node : Node) : Element :=
  { e with children := Node.push e.children node }

/-- Appends nodes, joining adjacent texts. -/
def append (nodes : List Node) (e : Element) : Element :=
  { e with children := nodes.foldl Node.push e.children }

/-- Adds a last child as it is, without joining texts. -/
def withChild (node : Node) (e : Element) : Element :=
  { e with children := e.children ++ [node] }

/-- Keeps the first `count` children, and hands out the others. -/
def splitOff (count : Nat) (e : Element) : Element × List Node :=
  ({ e with children := e.children.take count }, e.children.drop count)

/-- The element without the children that only lay it out. -/
def dropIndentation (e : Element) : Element :=
  { e with children := e.children.filter (! ·.isIndentation) }

/-- Changes every child that is an element. -/
def mapChildElements (change : Element → Element) (e : Element) : Element :=
  { e with children := e.children.map fun node =>
      (node.element?.map fun c => (change c).toNode).getD node }

end Element

end ApiDocs.Xml
