import ApiDocs.Xml.Element

/-!
# Elements in document order

The elements of a tree are listed with each element in front of those inside it, and those inside a
child in front of those inside the next one. A search for an element finds the first of them that
satisfies what is asked for.
-/

namespace ApiDocs.Xml

namespace Node

mutual

/-- The elements of a node, in document order. -/
def elements : Node → List Element
  | .element name attributes children => ⟨name, attributes, children⟩ :: elementsOfList children
  | _ => []

/-- The elements of the nodes, those of each node in front of those of the next one. -/
def elementsOfList : List Node → List Element
  | [] => []
  | node :: rest => node.elements ++ elementsOfList rest

end

mutual

theorem find?_eq (p : Element → Bool) (node : Node) : node.find? p = node.elements.find? p := by
  match node with
  | .element name attributes children =>
    rw [find?, elements, List.find?_cons]
    cases hp : p ⟨name, attributes, children⟩ with
    | true => rfl
    | false => simpa using findInList?_eq p children
  | .text _ | .cdata _ | .comment _ => simp [find?, elements]

theorem findInList?_eq (p : Element → Bool) (nodes : List Node) :
    findInList? p nodes = (elementsOfList nodes).find? p := by
  match nodes with
  | [] => rfl
  | node :: rest =>
    rw [findInList?, elementsOfList, List.find?_append, find?_eq p node, findInList?_eq p rest]
    cases node.elements.find? p <;> rfl

end

end Node

namespace Element

/-- The element and all elements inside it, in document order. -/
def elements (e : Element) : List Element :=
  e.toNode.elements

/-- The element is the first one, in document order, that satisfies `P`. -/
def IsFirst (e : Element) (P : Element → Prop) (found : Element) : Prop :=
  ∃ front back, e.elements = front ++ found :: back ∧ P found ∧ ∀ x ∈ front, ¬ P x

variable {p : Element → Bool} {e found : Element}

theorem find?_eq_some_iff : e.find? p = some found ↔ e.IsFirst (p · = true) found := by
  rw [find?, Node.find?_eq, List.find?_eq_some_iff_append, IsFirst, elements]
  constructor
  · rintro ⟨hfound, front, back, hsplit, hfront⟩
    exact ⟨front, back, hsplit, hfound, by simpa using hfront⟩
  · rintro ⟨front, back, hsplit, hfound, hfront⟩
    exact ⟨hfound, front, back, hsplit, by simpa using hfront⟩

theorem find?_eq_none_iff : e.find? p = none ↔ ∀ x ∈ e.elements, ¬ p x = true := by
  rw [find?, Node.find?_eq, List.find?_eq_none, elements]

end Element

end ApiDocs.Xml
