import ApiDocs.Xml.Element
import ApiDocs.Xml.Event

/-!
# Reading documents

The events of a document are folded into a tree: start tags open elements, end tags close
them, and everything else is appended to the innermost open element. Blank text with a line
break is layout, and is dropped when the element that holds it is closed. The first fault in
reading order is the one reported; that an element was left open, or that there is no root, can
only be told at the end.
-/

namespace ApiDocs.Xml

/-- Why a document cannot be read. -/
inductive Error where
  | markup (cause : MarkupError)
  | attribute (cause : AttributeError)
  | unknownReference (name : String)
  | unexpectedEndTag
  | secondRoot
  | unclosedElement (name : String)
  | missingRoot
  deriving DecidableEq, Repr

def Error.message : Error → String
  | .markup cause => cause.message
  | .attribute cause => cause.message
  | .unknownReference name => s!"unknown entity reference &{name};"
  | .unexpectedEndTag => "unexpected closing tag"
  | .secondRoot => "more than one root element"
  | .unclosedElement name => s!"unclosed element <{name}>"
  | .missingRoot => "document has no root element"

/-- A document that is being read: the open elements, the innermost first, and what is
complete so far. -/
structure Draft where
  opened : List Element := []
  prolog : List Node := []
  root : Option Element := none
  deriving DecidableEq, Repr

namespace Draft

/-- The node goes into the innermost open element; outside the root it is dropped. -/
def addContent (d : Draft) (node : Node) : Draft :=
  match d.opened with
  | [] => d
  | innermost :: outer => { d with opened := innermost.push node :: outer }

/-- A comment in front of the root is kept, and one behind it is dropped. -/
def addComment (d : Draft) (content : String) : Draft :=
  match d.opened, d.root with
  | [], none => { d with prolog := d.prolog ++ [.comment content] }
  | [], some _ => d
  | _ :: _, _ => d.addContent (.comment content)

/-- A complete element goes into the innermost open one, or else becomes the root. -/
def addElement (d : Draft) (e : Element) : Except Error Draft :=
  match d.opened, d.root with
  | [], none => .ok { d with root := some e }
  | [], some _ => .error .secondRoot
  | _ :: _, _ => .ok (d.addContent e.toNode)

/-- The element that a tag begins. -/
def elementOfTag (tag : Tag) : Except Error Element :=
  match tag.attributes with
  | .ok attributes => .ok { name := tag.name, attributes }
  | .error cause => .error (.attribute cause)

/-- The document after one more event. -/
def step (d : Draft) : Event → Except Error Draft
  | .startTag tag => do
    let e ← elementOfTag tag
    return { d with opened := e :: d.opened }
  | .emptyTag tag => do
    let e ← elementOfTag tag
    d.addElement e
  | .endTag _ =>
    match d.opened with
    | [] => .error .unexpectedEndTag
    | innermost :: outer => { d with opened := outer }.addElement innermost.dropIndentation
  | .text content => .ok (d.addContent (.text content))
  | .reference name =>
    match contentReference? name with
    | some c => .ok (d.addContent (.text c.toString))
    | none => .error (.unknownReference name)
  | .cdata content => .ok (d.addContent (.cdata content))
  | .comment content => .ok (d.addComment content)
  | .instruction | .doctype => .ok d

/-- The document, once its input has ended. -/
def finish (d : Draft) : Except Error Document :=
  match d.opened, d.root with
  | innermost :: _, _ => .error (.unclosedElement innermost.name)
  | [], none => .error .missingRoot
  | [], some root => .ok ⟨d.prolog, root⟩

end Draft

/-- The document that the events describe. -/
def Document.ofReading (reading : Reading) : Except Error Document := do
  let d ← reading.events.foldlM Draft.step {}
  match reading.fault with
  | some cause => .error (.markup cause)
  | none => d.finish

/-- Reads a document. -/
def Document.parse (content : String) : Except Error Document :=
  ofReading (.ofString content)

end ApiDocs.Xml
