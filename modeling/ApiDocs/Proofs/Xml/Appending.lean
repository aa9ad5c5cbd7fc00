import ApiDocs.Proofs.Xml.Normal

/-!
# Appending to an element

Each appended node adds nothing, prolongs the last text or comes last. Whatever is appended, no text
becomes empty and no two come to stand side by side, and of what was there and what was appended
nothing is lost or moved. How the nodes are divided among several calls makes no difference.
-/

namespace ApiDocs.Xml

namespace Node

theorem filter_joinText (content : String) (nodes : List Node) :
    (joinText content nodes).filter (! ·.isText) = nodes.filter (! ·.isText) := by
  unfold joinText
  split
  · rfl
  · split <;> rfl

/-- What is no text stays where texts are joined. -/
theorem filter_joinTexts (nodes : List Node) :
    (joinTexts nodes).filter (! ·.isText) = nodes.filter (! ·.isText) := by
  induction nodes with
  | nil => rfl
  | cons node rest ih =>
    cases node with
    | text content =>
      rw [joinTexts_text, filter_joinText, ih, List.filter_cons_of_neg (by simp [isText])]
    | _ => rw [joinTexts_cons_of_not_isText rfl, List.filter_cons, List.filter_cons, ih]

end Node

namespace Element

/-- `after` is `before` with the content of the nodes behind its own, and with joined texts. -/
structure Appended (nodes : List Node) (before after : Element) : Prop where
  name : after.name = before.name
  attributes : after.attributes = before.attributes
  joined : Node.Joined after.children
  text : after.text = before.text ++ Node.innerTextOfList nodes
  others : after.children.filter (! ·.isText) =
    before.children.filter (! ·.isText) ++ nodes.filter (! ·.isText)

theorem children_append {e : Element} (h : Node.Joined e.children) (nodes : List Node) :
    (e.append nodes).children = Node.joinTexts (e.children ++ nodes) :=
  Node.foldl_push_eq_joinTexts h nodes

theorem appended_append {e : Element} (h : Node.Joined e.children) (nodes : List Node) :
    Appended nodes e (e.append nodes) := by
  have hchildren := children_append h nodes
  refine ⟨rfl, rfl, ?_, ?_, ?_⟩
  · rw [hchildren]
    exact Node.joined_joinTexts (e.children ++ nodes)
  · rw [text, hchildren, Node.innerTextOfList_joinTexts, Node.innerTextOfList_append, ← text]
  · rw [hchildren, Node.filter_joinTexts, List.filter_append]

/-- Appending to joined children leaves joined children with the same content, all at once or one
part after the other. -/
theorem append_joins {e : Element} (h : Node.Joined e.children) (nodes : List Node) :
    Appended nodes e (e.append nodes) ∧
      ∀ others, (e.append nodes).append others = e.append (nodes ++ others) := by
  refine ⟨appended_append h nodes, fun others => ?_⟩
  rw [append, append, append, List.foldl_append]

/-- Empty texts vanish, the first other one prolongs a text, and two are joined behind what comes
between. -/
theorem append_joins_runs :
    let e : Element := ⟨"p", [⟨"k", "v"⟩], [.text "a", .comment "c", .text "b"]⟩
    let nodes : List Node :=
      [.text "", .text "x", .text "", .cdata "y", .text "", .text "z", .text "w"]
    let after : Element := { e with
      children := [.text "a", .comment "c", .text "bx", .cdata "y", .text "zw"] }
    Node.Joined e.children ∧ e.append nodes = after ∧ Appended nodes e after ∧
      after.append [.text "v"] = e.append (nodes ++ [.text "v"]) := by
  intro e nodes after
  have hjoined : Node.Joined e.children := by simp [e, Node.Joined, Node.isText]
  have hafter : e.append nodes = after := by decide
  obtain ⟨happended, happend⟩ := append_joins hjoined nodes
  rw [hafter] at happended happend
  exact ⟨hjoined, hafter, happended, happend [.text "v"]⟩

end Element

end ApiDocs.Xml
