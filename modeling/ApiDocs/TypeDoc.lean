import ApiDocs.Xml.Printer
import ApiDocs.Xml.Reader

/-!
# Documentation of a type

A documentation file describes one type. Its members are the elements `Type/Members/Member`, found
by their attribute `MemberName`; of several with one name the first counts. A member has the type
of its value in `ReturnValue/ReturnType`, and its prose in `Docs/summary` and `Docs/remarks`.
-/

namespace ApiDocs

open Xml

/-- The element that documents a member. -/
structure MemberDoc where
  element : Element
  deriving DecidableEq, Repr

namespace MemberDoc

def summaryPath : List String := ["Docs", "summary"]

def remarksPath : List String := ["Docs", "remarks"]

/-- The name of the member, which is empty if the element has none. -/
def name (m : MemberDoc) : String := (m.element.attribute? "MemberName").getD ""

/-- The text of the type of its value. -/
def returnType? (m : MemberDoc) : Option String :=
  (m.element.descend? ["ReturnValue", "ReturnType"]).map Element.text

def summary? (m : MemberDoc) : Option Element := m.element.descend? summaryPath

def remarks? (m : MemberDoc) : Option Element := m.element.descend? remarksPath

/-- The member has both of the fields that hold its prose. -/
def hasFields (m : MemberDoc) : Bool := m.summary?.isSome && m.remarks?.isSome

/-- Changes the summary and the remarks. There is no result if either is missing. -/
def changeFields? (summary remarks : Element → Element) (m : MemberDoc) : Option MemberDoc := do
  let e ← m.element.change? summary summaryPath
  let e ← e.change? remarks remarksPath
  return ⟨e⟩

/-- Sets the texts of both fields. -/
def setTexts? (summary remarks : String) : MemberDoc → Option MemberDoc :=
  changeFields? (.setText summary) (.setText remarks)

/-- Fills the summary with the first `count` of the nodes, and the remarks with the others. Nodes
are counted after adjacent texts have been joined. -/
def splice? (content : List Node) (count : Nat) : MemberDoc → Option MemberDoc :=
  let nodes := Node.merge content
  changeFields? (fun e => e.clear.append (nodes.take count))
    (fun e => e.clear.append (nodes.drop count))

end MemberDoc

/-- The documentation of one type. -/
structure TypeDoc where
  document : Document
  deriving DecidableEq, Repr

namespace TypeDoc

/-- Reads a documentation file. A byte order mark in front is dropped here, and one more is
dropped by the reader of documents. -/
def parse (content : String) : Except Xml.Error TypeDoc :=
  (Document.parse (dropByteOrderMark content)).map .mk

/-- The written form of the documentation. -/
def render (t : TypeDoc) : String := t.document.render

/-- The element documents the member with this name. -/
def isMember (name : String) (e : Element) : Bool :=
  e.name = "Member" && e.attribute? "MemberName" = some name

/-- The documentation of the member with this name. -/
def member? (t : TypeDoc) (name : String) : Option MemberDoc :=
  if t.document.root.name = "Type" then do
    let members ← t.document.root.child? "Members"
    return ⟨← members.childElements.find? (isMember name)⟩
  else none

/-- Changes the documentation of the member with this name. There is no result if there is no such
member, or if the change has none. -/
def changeMember? (name : String) (change : MemberDoc → Option MemberDoc) (t : TypeDoc) :
    Option TypeDoc :=
  if t.document.root.name = "Type" then do
    let root ← t.document.root.changeChild? (·.name = "Members")
      (·.changeChild? (isMember name) fun e => (change ⟨e⟩).map (·.element))
    return ⟨{ t.document with root }⟩
  else none

end TypeDoc

end ApiDocs
