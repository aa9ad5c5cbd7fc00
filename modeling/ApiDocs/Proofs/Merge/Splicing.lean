import ApiDocs.Proofs.Merge.Writes

/-!
# Splicing fragments into fields

The content of a fragment is divided between the summary and the remarks of a member. Either the
member has both fields, and then they hold the content one behind the other, or nothing happens. No
node is lost, doubled or moved, and no text is joined across the place where the content is cut.
-/

namespace ApiDocs

open Xml

namespace MemberDoc

/-- The two fields of a member, where they are found. -/
structure Fields (m : MemberDoc) where
  docs : Element
  summary : Element
  remarks : Element
  docs_eq : m.element.child? "Docs" = some docs
  summary_eq : docs.child? "summary" = some summary
  remarks_eq : docs.child? "remarks" = some remarks

/-- In `after` the two fields have new children. Their attributes, and all other nodes of the member,
are the same. -/
structure Fields.Refilled {m : MemberDoc} (fields : m.Fields) (prose : MemberProse)
    (after : MemberDoc) : Prop where
  summary : after.summary? = some (fields.summary.withChildren prose.summary)
  remarks : after.remarks? = some (fields.remarks.withChildren prose.remarks)
  others : ∃ between docs,
    Element.ReplacesFirst fields.docs docs m.element after.element ∧
    Element.ReplacesFirst fields.summary (fields.summary.withChildren prose.summary)
      fields.docs between ∧
    Element.ReplacesFirst fields.remarks (fields.remarks.withChildren prose.remarks) between docs

theorem hasFields_iff {m : MemberDoc} : m.hasFields = true ↔ Nonempty m.Fields := by
  rw [hasFields_eq]
  constructor
  · intro h
    cases hdocs : m.element.child? "Docs" with
    | none => simp [hdocs] at h
    | some docs =>
      rw [hdocs, Option.any_some, Bool.and_eq_true] at h
      obtain ⟨summary, hsummary⟩ := Option.isSome_iff_exists.1 h.1
      obtain ⟨remarks, hremarks⟩ := Option.isSome_iff_exists.1 h.2
      exact ⟨docs, summary, remarks, hdocs, hsummary, hremarks⟩
  · rintro ⟨fields⟩
    simp [fields.docs_eq, fields.summary_eq, fields.remarks_eq]

/-- To give prose to a member is to put it into the fields, and into nothing else. -/
theorem Fields.refilled_fill {m : MemberDoc} (fields : m.Fields) (prose : MemberProse) :
    fields.Refilled prose (m.fill (some prose)) := by
  have hdocs : (m.fill (some prose)).element.child? "Docs" = some (fillFields prose fields.docs) := by
    rw [fill, Element.child?_mapChild keepsName_fillFields, fields.docs_eq, Option.map_some]
  have hremarks : (fields.docs.mapChild "summary" (.withChildren prose.summary)).child? "remarks" =
      some fields.remarks := by
    rw [Element.child?_mapChild_of_ne Element.keepsName_withChildren (by decide),
      fields.remarks_eq]
  constructor
  case summary =>
    rw [summary?, summaryPath, Element.descend?, hdocs]
    simp [Element.descend?, child?_summary_fillFields, fields.summary_eq]
  case remarks =>
    rw [remarks?, remarksPath, Element.descend?, hdocs]
    simp [Element.descend?, child?_remarks_fillFields, fields.remarks_eq]
  case others =>
    exact ⟨_, _, Element.replacesFirst_mapChild fields.docs_eq (fillFields prose),
      Element.replacesFirst_mapChild fields.summary_eq (.withChildren prose.summary),
      Element.replacesFirst_mapChild hremarks (.withChildren prose.remarks)⟩

theorem splice?_eq_fill (m : MemberDoc) (content : List Node) (count : Nat) :
    m.splice? content count =
      if m.hasFields then
        some (m.fill (some
          ⟨(Node.joinTexts content).take count, (Node.joinTexts content).drop count⟩))
      else none := by
  rw [splice?_eq]
  exact changeFields?_withChildren
    ⟨(Node.joinTexts content).take count, (Node.joinTexts content).drop count⟩ m

/-- Content is spliced into a member if that has both fields. They hold all of it then, one behind
the other, and everything else stays. -/
theorem splice?_refills (m : MemberDoc) (content : List Node) (count : Nat) :
    let nodes := Node.joinTexts content
    let prose : MemberProse := ⟨nodes.take count, nodes.drop count⟩
    ((m.splice? content count).isSome = true ↔ Nonempty m.Fields) ∧
      (∀ fields : m.Fields, ∃ after, m.splice? content count = some after ∧
        fields.Refilled prose after) ∧
      prose.summary ++ prose.remarks = nodes ∧
      Node.innerTextOfList prose.summary ++ Node.innerTextOfList prose.remarks =
        Node.innerTextOfList content := by
  intro nodes prose
  have hnodes : prose.summary ++ prose.remarks = nodes := List.take_append_drop count nodes
  rw [splice?_eq_fill, ← hasFields_iff]
  refine ⟨?_, fun fields => ?_, hnodes, ?_⟩
  · cases m.hasFields <;> simp
  · have hfields : m.hasFields = true := hasFields_iff.2 ⟨fields⟩
    exact ⟨m.fill (some prose), if_pos hfields, fields.refilled_fill prose⟩
  · rw [← Node.innerTextOfList_append, hnodes, Node.innerTextOfList_joinTexts]

/-- The cut is between two texts that were joined from more, and a second summary is there. -/
theorem splice?_refills_cut :
    let summary : Element := ⟨"summary", [⟨"k", "v"⟩], [.text "old"]⟩
    let remarks : Element := ⟨"remarks", [], []⟩
    let docs : Element :=
      ⟨"Docs", [], [.comment "c", remarks.toNode, summary.toNode, .element "summary" [] []]⟩
    let m : MemberDoc := ⟨⟨"Member", [], [.text "t", docs.toNode, .element "Docs" [] []]⟩⟩
    let fields : m.Fields := ⟨docs, summary, remarks, rfl, rfl, rfl⟩
    let content : List Node :=
      [.text "", .text "a", .text "", .text "b", .cdata "c", .text "d", .text "e"]
    ∃ after, m.splice? content 2 = some after ∧
      fields.Refilled ⟨[.text "ab", .cdata "c"], [.text "de"]⟩ after := by
  intro summary remarks docs m fields content
  have hnodes : Node.joinTexts content = [.text "ab", .cdata "c", .text "de"] := by decide
  obtain ⟨-, hsplice, -⟩ := splice?_refills m content 2
  obtain ⟨after, hafter, hrefilled⟩ := hsplice fields
  rw [hnodes] at hrefilled
  exact ⟨after, hafter, hrefilled⟩

end MemberDoc

end ApiDocs
