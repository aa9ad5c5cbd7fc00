import Mathlib.Logic.Function.Conjugate
import ApiDocs.Proofs.Xml.Child
import ApiDocs.Proofs.Xml.Normal

/-!
# Normal forms of changed trees

A tree that was changed below one of its elements has the normal form of the tree before, with the
normal form of the change at the same place: bringing into normal form leaves every element where it
is, under its name and with its attributes.
-/

namespace ApiDocs.Xml

namespace Node

theorem norm_of_element?_eq_none {node : Node} (h : node.element? = none) : node.norm = node := by
  cases node with
  | element => cases h
  | _ => rfl

theorem element?_norm (node : Node) : node.norm.element? = node.element?.map Element.norm := by
  cases helement : node.element? with
  | none => rw [norm_of_element?_eq_none helement, helement, Option.map_none]
  | some e =>
    obtain rfl := element?_eq_some_iff.1 helement
    rw [← Element.toNode_norm, Element.element?_toNode, Option.map_some]

variable {p : Element → Bool} {f g : Element → Element}

theorem head?_mapFirst (nodes : List Node) :
    (mapFirst p f nodes).head?.any isText = nodes.head?.any isText := by
  cases nodes with
  | nil => rfl
  | cons node rest =>
    rcases eq_toNode_or p node with ⟨e, rfl, hp⟩ | hp
    · rw [mapFirst_cons_of_pos hp]
      rfl
    · rw [mapFirst_cons_of_neg hp]
      rfl

/-- It makes no difference to texts which elements stand between them. -/
theorem isTidyList_mapFirst (nodes : List Node) :
    isTidyList (mapFirst p f nodes) = isTidyList nodes := by
  induction nodes with
  | nil => rfl
  | cons node rest ih =>
    rcases eq_toNode_or p node with ⟨e, rfl, hp⟩ | hp
    · rw [mapFirst_cons_of_pos hp]
      rfl
    · rw [mapFirst_cons_of_neg hp]
      cases node with
      | text content => rw [isTidyList, isTidyList, head?_mapFirst, ih]
      | _ => exact ih

theorem mapFirst_joinText (content : String) (nodes : List Node) :
    mapFirst p f (joinText content nodes) = joinText content (mapFirst p f nodes) := by
  by_cases hcontent : content = ""
  · rw [hcontent, joinText_empty, joinText_empty]
  · cases hhead : nodes.head?.any isText with
    | false =>
      rw [joinText_of_not_isText hcontent hhead,
        joinText_of_not_isText hcontent ((head?_mapFirst nodes).trans hhead),
        mapFirst_cons_of_neg rfl]
    | true =>
      rcases nodes with _ | ⟨_ | first | _ | _, rest⟩
      case cons.text => rfl
      all_goals simp [isText] at hhead

/-- Elements stay where they are when the texts between them are joined. -/
theorem joinTexts_mapFirst (nodes : List Node) :
    joinTexts (mapFirst p f nodes) = mapFirst p f (joinTexts nodes) := by
  induction nodes with
  | nil => rfl
  | cons node rest ih =>
    rcases eq_toNode_or p node with ⟨e, rfl, hp⟩ | hp
    · rw [mapFirst_cons_of_pos hp, joinTexts_cons_of_not_isText rfl,
        joinTexts_cons_of_not_isText rfl, mapFirst_cons_of_pos hp]
    · rw [mapFirst_cons_of_neg hp]
      cases node with
      | text content => rw [joinTexts_text, joinTexts_text, ih, mapFirst_joinText]
      | _ =>
        rw [joinTexts_cons_of_not_isText rfl, joinTexts_cons_of_not_isText rfl,
          mapFirst_cons_of_neg hp, ih]

theorem filter_mapFirst {keep : Node → Bool} (hkeep : ∀ e : Element, keep e.toNode = true)
    (nodes : List Node) :
    (mapFirst p f nodes).filter keep = mapFirst p f (nodes.filter keep) := by
  induction nodes with
  | nil => rfl
  | cons node rest ih =>
    rcases eq_toNode_or p node with ⟨e, rfl, hp⟩ | hp
    · rw [mapFirst_cons_of_pos hp, List.filter_cons_of_pos (hkeep _),
        List.filter_cons_of_pos (hkeep _), mapFirst_cons_of_pos hp]
    · rw [mapFirst_cons_of_neg hp]
      cases hnode : keep node with
      | true =>
        rw [List.filter_cons_of_pos hnode, List.filter_cons_of_pos hnode,
          mapFirst_cons_of_neg hp, ih]
      | false =>
        rw [List.filter_cons_of_neg (by simp [hnode]), List.filter_cons_of_neg (by simp [hnode]), ih]

theorem tidy_mapFirst (nodes : List Node) :
    tidy (mapFirst p f nodes) = mapFirst p f (tidy nodes) := by
  rw [tidy, joinTexts_mapFirst, filter_mapFirst (fun _ => rfl), ← tidy]

theorem map_norm_mapFirst (hp : ∀ e : Element, p e.norm = p e)
    (h : Function.Semiconj Element.norm f g) (nodes : List Node) :
    (mapFirst p f nodes).map norm = mapFirst p g (nodes.map norm) := by
  induction nodes with
  | nil => rfl
  | cons node rest ih =>
    rw [List.map_cons]
    rcases eq_toNode_or p node with ⟨e, rfl, hpos⟩ | hneg
    · rw [mapFirst_cons_of_pos hpos, List.map_cons, ← Element.toNode_norm, ← Element.toNode_norm,
        mapFirst_cons_of_pos ((hp e).trans hpos), h e]
    · have hnorm : node.norm.element?.any p = false := by
        rw [element?_norm, Option.any_map]
        simpa [Function.comp_def, hp] using hneg
      rw [mapFirst_cons_of_neg hneg, List.map_cons, mapFirst_cons_of_neg hnorm, ih]

end Node

namespace Element

variable {f g : Element → Element}

theorem norm_withChildren (nodes : List Node) :
    Function.Semiconj norm (withChildren nodes) (withChildren (Node.tidy (nodes.map Node.norm))) :=
  fun _ => rfl

/-- The normal form of a changed child is at the place where the child was. -/
theorem norm_mapChild (name : String) (h : Function.Semiconj norm f g) :
    Function.Semiconj norm (mapChild name f) (mapChild name g) := by
  intro e
  have hchildren : Node.tidy ((Node.mapFirst (·.name = name) f e.children).map Node.norm) =
      Node.mapFirst (·.name = name) g (Node.tidy (e.children.map Node.norm)) := by
    rw [Node.map_norm_mapFirst (fun _ => rfl) h, Node.tidy_mapFirst]
  simp only [norm, mapChild, hchildren]

end Element

end ApiDocs.Xml
