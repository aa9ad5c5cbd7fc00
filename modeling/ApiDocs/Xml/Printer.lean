import ApiDocs.Xml.Node
import ApiDocs.Xml.Element

/-!
# Writing documents

A document is written without a declaration and ends with a line break. An element is laid out
over several lines, two spaces to a level, as long as neither it nor an element around it has
text or CDATA among its children; from there on nothing is added between its children.
-/

namespace ApiDocs.Xml

/-- How a character is written inside text. -/
def textEscape : Char → List Char
  | '<' => ['&', 'l', 't', ';']
  | '>' => ['&', 'g', 't', ';']
  | '&' => ['&', 'a', 'm', 'p', ';']
  | c => [c]

/-- How a character is written inside the value of an attribute. -/
def valueEscape : Char → List Char
  | '\'' => ['&', 'a', 'p', 'o', 's', ';']
  | '"' => ['&', 'q', 'u', 'o', 't', ';']
  | c => textEscape c

/-- The characters of a text, each written by `escape`. -/
def escaped (escape : Char → List Char) (content : String) : String :=
  String.ofList (content.toList.flatMap escape)

/-- A line break, followed by the indentation of a line at this depth. -/
def lineBreak (depth : Nat) : String :=
  "\n".pushn ' ' (2 * depth)

/-- The attribute with the space before it, its value in double quotes. -/
def Attribute.render (a : Attribute) : String :=
  " " ++ a.key ++ "=\"" ++ escaped valueEscape a.value ++ "\""

namespace Node

mutual

/-- Writes a node behind `out`. The node starts at `depth`, and `indented` tells whether the
elements around it are laid out over several lines. -/
def write (depth : Nat) (indented : Bool) (out : String) : Node → String
  | .element name attributes children =>
    let out := attributes.foldl (fun out a => out ++ a.render) (out ++ "<" ++ name)
    if children.isEmpty then out ++ " />"
    else
      let indented := indented && !children.any isTextual
      let out := writeList (depth + 1) indented (out ++ ">") children
      let out := if indented then out ++ lineBreak depth else out
      out ++ "</" ++ name ++ ">"
  | .text content => out ++ escaped textEscape content
  | .cdata content => out ++ "<![CDATA[" ++ content ++ "]]>"
  | .comment content => out ++ "<!--" ++ content ++ "-->"

/-- Writes nodes behind `out`, each on a line of its own if `indented`. -/
def writeList (depth : Nat) (indented : Bool) (out : String) : List Node → String
  | [] => out
  | node :: rest =>
    let out := if indented then out ++ lineBreak depth else out
    writeList depth indented (node.write depth indented out) rest

end

end Node

/-- The written form of a document. -/
def Document.render (d : Document) : String :=
  let out := d.prolog.foldl (fun out node => node.write 0 true out ++ "\n") ""
  d.root.toNode.write 0 true out ++ "\n"

end ApiDocs.Xml
