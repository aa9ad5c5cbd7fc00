import ApiDocs.Proofs.Merge.Reloading
import ApiDocs.Proofs.Xml.Paths

/-!
# Changes where a lookup leads

Documentation is looked up to decide what to write, and looked up once more to write it. Both lookups
end at one element: what is changed is what was found, a change that keeps what the element is found
by is found again, and no lookup of anything else notices it.
-/

namespace ApiDocs

open Xml

namespace TypeDoc

variable {name other : String} {old new : MemberDoc} {before after : TypeDoc}

theorem isMember_of_member? (h : before.member? name = some old) :
    isMember name old.element = true := by
  obtain ⟨-, members, -, hfirst⟩ := before.member?_eq_some_iff.1 h
  exact (Node.exists_split_of_first? hfirst).1

theorem isMember_eq_false_of_ne {e : Element} (h : isMember name e = true) (hother : other ≠ name) :
    isMember other e = false := by
  rw [Bool.eq_false_iff]
  intro hfound
  rw [isMember_iff] at h hfound
  exact hother (Option.some.inj (hfound.symm.trans h))

namespace ReplacesMember

/-- Where members are looked for, before and after. -/
theorem member?_eq_first? (h : before.ReplacesMember name old new after)
    (hroot : before.document.root.name = "Type") :
    ∃ front back, (∀ node ∈ front, node.element?.any (isMember name) = false) ∧
      ∀ other,
        before.member? other =
          (Node.first? (isMember other) (front ++ old.element.toNode :: back)).map .mk ∧
        after.member? other =
          (Node.first? (isMember other) (front ++ new.element.toNode :: back)).map .mk := by
  obtain ⟨-, members, front, back, hreplaces, hname, hchildren, hfront⟩ := h
  refine ⟨front, back, hfront, fun other => ⟨?_, ?_⟩⟩
  · rw [member?_eq, if_pos hroot, ← hname, hreplaces.child?_before, Option.bind_some, hchildren]
  · rw [member?_eq, if_pos (hreplaces.name.trans hroot), ← hname,
      hreplaces.child?_after (Element.name_withChildren _ _), Option.bind_some]
    rfl

theorem member?_after (h : before.ReplacesMember name old new after)
    (hroot : before.document.root.name = "Type") (hnew : isMember name new.element = true) :
    after.member? name = some new := by
  obtain ⟨front, back, hfront, hmember⟩ := h.member?_eq_first? hroot
  rw [(hmember name).2, Node.first?_between hfront hnew, Option.map_some]

theorem member?_of_ne (h : before.ReplacesMember name old new after)
    (hroot : before.document.root.name = "Type") (hold : isMember name old.element = true)
    (hnew : isMember name new.element = true) (hother : other ≠ name) :
    after.member? other = before.member? other := by
  obtain ⟨front, back, -, hmember⟩ := h.member?_eq_first? hroot
  rw [(hmember other).1, (hmember other).2, Node.first?_between_congr
    (isMember_eq_false_of_ne hold hother) (isMember_eq_false_of_ne hnew hother)]

end ReplacesMember

/-- A change of the member with a name is made in the member that a lookup of that name finds. -/
structure ChangesFound (name : String) (old new : MemberDoc) (before after : TypeDoc) : Prop where
  found : after.member? name = some new
  elsewhere : ∀ other, other ≠ name → after.member? other = before.member? other
  outside : before.ReplacesMember name old new after

theorem isSome_changeMember? (d : TypeDoc) (name : String) (change : MemberDoc → Option MemberDoc) :
    (d.changeMember? name change).isSome = (d.member? name).any fun m => (change m).isSome := by
  rw [changeMember?_eq, Option.isSome_map]
  cases d.member? name <;> rfl

theorem exists_changeMember? {change : MemberDoc → Option MemberDoc}
    (hold : before.member? name = some old) (hnew : change old = some new)
    (hname : new.element.name = old.element.name)
    (hattribute : new.element.attribute? "MemberName" = old.element.attribute? "MemberName") :
    ∃ after, before.changeMember? name change = some after ∧
      ChangesFound name old new before after := by
  obtain ⟨hroot, -⟩ := before.member?_eq_some_iff.1 hold
  have hisOld : isMember name old.element = true := isMember_of_member? hold
  have hisNew : isMember name new.element = true := by
    rwa [isMember, hname, hattribute]
  have hreplaces := replacesMember_mapMember (fun _ => new) hold
  refine ⟨before.mapMember name fun _ => new, ?_, ?_, ?_, hreplaces⟩
  · rw [changeMember?_eq, hold, Option.bind_some, hnew, Option.map_some]
  · exact hreplaces.member?_after hroot hisNew
  · exact fun _ hother => hreplaces.member?_of_ne hroot hisOld hisNew hother

end TypeDoc

/-- Along a path and under the name of a member, what is changed is what a lookup finds. It is found
there from then on, and everything beside it is found as it was and stands where it was. -/
theorem changes_found :
    (∀ (e : Element) (path : List String) (f : Element → Element),
      ((e.change? f path).isSome = true ↔ (e.descend? path).isSome = true) ∧
        ∀ old, e.descend? path = some old → (f old).name = old.name →
          ∃ after, e.change? f path = some after ∧
            Element.ChangesFound path old (f old) e after) ∧
    ∀ (d : TypeDoc) (name : String) (change : MemberDoc → Option MemberDoc),
      ((d.changeMember? name change).isSome = true ↔
        ∃ m, d.member? name = some m ∧ (change m).isSome = true) ∧
        ∀ old new, d.member? name = some old → change old = some new →
          new.element.name = old.element.name →
          new.element.attribute? "MemberName" = old.element.attribute? "MemberName" →
          ∃ after, d.changeMember? name change = some after ∧
            TypeDoc.ChangesFound name old new d after := by
  refine ⟨fun e path f => ⟨?_, fun old hold hname => ?_⟩, fun d name change => ⟨?_, ?_⟩⟩
  · rw [Element.isSome_change?]
  · exact Element.exists_change? f hold hname
  · rw [TypeDoc.isSome_changeMember?, Option.any_eq_true]
  · exact fun old new hold hnew => TypeDoc.exists_changeMember? hold hnew

/-- All names on the way occur more than once, and the member has two names. -/
theorem changes_found_repeated :
    let field (name content : String) : Element := ⟨name, [], [.text content]⟩
    let member (summary remarks : String) : Element :=
      ⟨"Member", [⟨"MemberName", "F"⟩, ⟨"MemberName", "G"⟩],
        [.text "t", .element "Docs" [] [(field "remarks" remarks).toNode,
          (field "summary" summary).toNode, (field "summary" "second").toNode],
        .element "Docs" [] [(field "summary" "third").toNode]]⟩
    let d (first : Element) : TypeDoc := ⟨[], ⟨"Type", [], [.element "Members" [] [.comment "c",
      first.toNode, (member "a" "b").toNode, .element "Member" [⟨"MemberName", "G"⟩] []],
      .element "Members" [] [(member "a" "b").toNode]]⟩⟩
    let path := ["Docs", "summary"]
    (member "a" "b").change? (.setText "new") path = some (member "new" "b") ∧
      Element.ChangesFound path (field "summary" "a") (field "summary" "new") (member "a" "b")
        (member "new" "b") ∧
      (d (member "a" "b")).changeMember? "F" (·.setTexts? "new" "x") = some (d (member "new" "x")) ∧
      TypeDoc.ChangesFound "F" ⟨member "a" "b"⟩ ⟨member "new" "x"⟩ (d (member "a" "b"))
        (d (member "new" "x")) := by
  intro field member d path
  obtain ⟨hpath, hmember⟩ := changes_found
  have hchanged : (member "a" "b").change? (.setText "new") path = some (member "new" "b") := rfl
  have hwritten : (d (member "a" "b")).changeMember? "F" (·.setTexts? "new" "x") =
      some (d (member "new" "x")) := rfl
  obtain ⟨_, hafter, hfound⟩ :=
    (hpath (member "a" "b") path (.setText "new")).2 (field "summary" "a") rfl rfl
  obtain rfl := Option.some.inj (hchanged.symm.trans hafter)
  obtain ⟨_, hafter', hfound'⟩ :=
    (hmember (d (member "a" "b")) "F" (·.setTexts? "new" "x")).2 ⟨member "a" "b"⟩
      ⟨member "new" "x"⟩ rfl rfl rfl rfl
  obtain rfl := Option.some.inj (hwritten.symm.trans hafter')
  exact ⟨hchanged, hfound, hwritten, hfound'⟩

end ApiDocs
