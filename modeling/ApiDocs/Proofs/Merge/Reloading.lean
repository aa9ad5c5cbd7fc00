import ApiDocs.Proofs.Merge.SettledDoc
import ApiDocs.Proofs.Merge.Splicing

/-!
# Edited documentation, saved and loaded again

Any texts may be put into the fields of a member. When the documentation has been written and read
back, the fields of that member hold these texts, but for a text that only lays the document out;
and nothing else in the documentation has changed.
-/

namespace ApiDocs

open Xml

/-! ## Normal forms of overwritten documentation -/

/-- The new content as it is read back. -/
def MemberProse.norm (prose : MemberProse) : MemberProse :=
  ⟨Node.tidy (prose.summary.map Node.norm), Node.tidy (prose.remarks.map Node.norm)⟩

namespace MemberDoc

theorem norm_fillFields (prose : MemberProse) :
    Function.Semiconj Element.norm (fillFields prose) (fillFields prose.norm) := by
  have hsummary := Element.norm_mapChild "summary" (Element.norm_withChildren prose.summary)
  have hremarks := Element.norm_mapChild "remarks" (Element.norm_withChildren prose.remarks)
  exact hremarks.comp_right hsummary

theorem norm_element_fill (prose : MemberProse) :
    Function.Semiconj Element.norm (fun e => (fill (some prose) ⟨e⟩).element)
      (fun e => (fill (some prose.norm) ⟨e⟩).element) :=
  Element.norm_mapChild "Docs" (norm_fillFields prose)

end MemberDoc

namespace TypeDoc

def norm (d : TypeDoc) : TypeDoc :=
  ⟨d.document.norm⟩

theorem norm_overwriteMembers (name : String) (prose : MemberProse) :
    Function.Semiconj Element.norm (overwriteMembers (.only name prose))
      (overwriteMembers (.only name prose.norm)) := by
  intro members
  have hmember : ∀ e : Element, isMember name e.norm = isMember name e := fun _ => rfl
  have hchildren :
      Node.tidy ((fillMembers (.only name prose) members.children).map Node.norm) =
        fillMembers (.only name prose.norm) (Node.tidy (members.children.map Node.norm)) := by
    rw [← mapFirst_isMember, ← mapFirst_isMember,
      Node.map_norm_mapFirst hmember (MemberDoc.norm_element_fill prose), Node.tidy_mapFirst]
  simp only [overwriteMembers, Element.withChildren, Element.norm, hchildren]

/-- Documentation with new prose for a member has the normal form of the documentation before, with
the normal form of the prose. -/
theorem norm_overwrite (d : TypeDoc) (name : String) (prose : MemberProse) :
    (d.overwrite (.only name prose)).norm = d.norm.overwrite (.only name prose.norm) := by
  by_cases hroot : d.document.root.name = "Type"
  · have hnorm : d.norm.document.root.name = "Type" := hroot
    have hmembers := Element.norm_mapChild "Members" (norm_overwriteMembers name prose)
    rw [overwrite, if_pos hroot, overwrite, if_pos hnorm]
    simp only [norm, Document.norm, hmembers d.document.root]
  · have hnorm : ¬ d.norm.document.root.name = "Type" := hroot
    rw [overwrite, if_neg hroot, overwrite, if_neg hnorm]

end TypeDoc

/-! ## Clean documentation -/

namespace Xml

def Element.IsClean (e : Element) : Prop :=
  e.toNode.all Node.isClean = true

theorem Element.isClean_iff {e : Element} :
    e.IsClean ↔ (Node.element e.name e.attributes []).isClean = true ∧
      ∀ node ∈ e.children, node.all Node.isClean = true := by
  rw [IsClean, toNode, Node.all_element_iff]
  rfl

theorem Element.isClean_withChildren {e : Element} (he : e.IsClean) {nodes : List Node}
    (hnodes : ∀ node ∈ nodes, node.all Node.isClean = true) : (e.withChildren nodes).IsClean :=
  isClean_iff.2 ⟨(isClean_iff.1 he).1, hnodes⟩

theorem Element.isClean_mapChild {f : Element → Element}
    (hf : ∀ e : Element, e.IsClean → (f e).IsClean) (name : String) {e : Element}
    (he : e.IsClean) : (e.mapChild name f).IsClean := by
  refine isClean_withChildren he fun node hnode => ?_
  rcases Node.mem_of_mem_mapFirst hnode with hmem | ⟨x, hx, rfl⟩
  · exact (isClean_iff.1 he).2 node hmem
  · exact hf x ((isClean_iff.1 he).2 x.toNode hx)

end Xml

/-- The nodes of the new content are clean. -/
structure MemberProse.IsClean (prose : MemberProse) : Prop where
  summary : ∀ node ∈ prose.summary, node.all Node.isClean = true
  remarks : ∀ node ∈ prose.remarks, node.all Node.isClean = true

variable {name : String} {prose : MemberProse}

theorem MemberDoc.isClean_fill (hprose : prose.IsClean) {e : Element} (he : e.IsClean) :
    (fill (some prose) ⟨e⟩).element.IsClean := by
  refine Element.isClean_mapChild (fun docs hdocs => ?_) "Docs" he
  have hsummary : (docs.mapChild "summary" (.withChildren prose.summary)).IsClean :=
    Element.isClean_mapChild (fun e he => Element.isClean_withChildren he hprose.summary)
      "summary" hdocs
  exact Element.isClean_mapChild (fun e he => Element.isClean_withChildren he hprose.remarks)
    "remarks" hsummary

namespace TypeDoc

theorem isClean_overwrite (hprose : prose.IsClean) {d : TypeDoc}
    (hd : d.document.isClean = true) : (d.overwrite (.only name prose)).document.isClean = true := by
  obtain ⟨hprolog, hroot⟩ := Bool.and_eq_true_iff.1 hd
  rw [overwrite]
  split
  · refine Bool.and_eq_true_iff.2 ⟨hprolog, ?_⟩
    refine Element.isClean_mapChild (fun members hmembers => ?_) "Members" hroot
    refine Element.isClean_withChildren hmembers fun node hnode => ?_
    rw [← mapFirst_isMember] at hnode
    rcases Node.mem_of_mem_mapFirst hnode with hmem | ⟨e, he, rfl⟩
    · exact (Element.isClean_iff.1 hmembers).2 node hmem
    · exact MemberDoc.isClean_fill hprose ((Element.isClean_iff.1 hmembers).2 e.toNode he)
  · exact hd

/-- Clean documentation is read back as its normal form. -/
theorem parse_render_eq_norm {d : TypeDoc} (h : d.document.isClean = true) :
    TypeDoc.parse d.render = .ok d.norm := by
  have hprolog : d.document.prolog.all Node.isComment = true :=
    List.all_eq_true.2 fun node hnode =>
      (Bool.and_eq_true_iff.1 (List.all_eq_true.1 (Bool.and_eq_true_iff.1 h).1 node hnode)).1
  rw [TypeDoc.parse, render, Document.dropByteOrderMark_render hprolog,
    Document.parse_render_of_isLegible (Document.isLegible_of_isClean h)]
  rfl

/-- Settled documentation that was given clean prose for a member is read back with the normal form
of that prose. -/
theorem parse_render_overwrite (hprose : prose.IsClean) {d : TypeDoc} (hd : d.IsSettled) :
    TypeDoc.parse (d.overwrite (.only name prose)).render =
      .ok (d.overwrite (.only name prose.norm)) := by
  have hnorm : d.norm = d := by rw [norm, hd.norm_eq]
  rw [parse_render_eq_norm (isClean_overwrite hprose hd.isClean), norm_overwrite, hnorm]

/-! ## What is changed -/

/-- Another member takes the place of `old`, the first one with the name. All else is the same. -/
structure ReplacesMember (name : String) (old new : MemberDoc) (before after : TypeDoc) : Prop where
  prolog : after.document.prolog = before.document.prolog
  members : ∃ members front back,
    Element.ReplacesFirst members (members.withChildren (front ++ new.element.toNode :: back))
      before.document.root after.document.root ∧
    members.name = "Members" ∧ members.children = front ++ old.element.toNode :: back ∧
    ∀ node ∈ front, node.element?.any (isMember name) = false

theorem replacesMember_mapMember (change : MemberDoc → MemberDoc) {d : TypeDoc} {m : MemberDoc}
    (h : d.member? name = some m) :
    d.ReplacesMember name m (change m) (d.mapMember name change) := by
  obtain ⟨hroot, members, hmembers, hfirst⟩ := d.member?_eq_some_iff.1 h
  obtain ⟨-, front, back, hchildren, hfront, hmap⟩ := Node.exists_split_of_first? hfirst
  obtain ⟨hname, -⟩ := Node.exists_split_of_first? hmembers
  have hchanged : mapMemberAmong name change members =
      members.withChildren (front ++ (change m).element.toNode :: back) := by
    rw [mapMemberAmong, hmap]
  rw [mapMember, if_pos hroot]
  refine ⟨rfl, members, front, back, ?_, of_decide_eq_true hname, hchildren, hfront⟩
  rw [← hchanged]
  exact Element.replacesFirst_mapChild hmembers (mapMemberAmong name change)

theorem replacesMember_overwrite {d : TypeDoc} {m : MemberDoc} (h : d.member? name = some m) :
    d.ReplacesMember name m (m.fill (some prose)) (d.overwrite (.only name prose)) := by
  rw [overwrite_only]
  exact replacesMember_mapMember (MemberDoc.fill (some prose)) h

end TypeDoc

/-! ## Texts -/

/-- What is read back of a text: the text itself, unless it only lays the document out. -/
structure ReadsBack (content found : String) : Prop where
  eq_or : found = content ∨ found = ""
  eq_empty_iff : found = "" ↔
    content = "" ∨ ('\n' ∈ content.toList ∧ ∀ c ∈ content.toList, Text.isBlank c = true)

/-- The nodes that are read back of a text. -/
def keptNodes (content : String) : List Node :=
  Node.tidy ((textNodes content).map Node.norm)

theorem isIndentation_text_iff {content : String} :
    (Node.text content).isIndentation = true ↔
      '\n' ∈ content.toList ∧ ∀ c ∈ content.toList, Text.isBlank c = true := by
  rw [Node.isIndentation, Bool.and_eq_true, List.contains_iff_mem, List.all_eq_true]

theorem readsBack_keptNodes (content : String) :
    ReadsBack content (Node.innerTextOfList (keptNodes content)) := by
  by_cases hempty : content = ""
  · subst hempty
    exact ⟨.inl rfl, iff_of_true rfl (.inl rfl)⟩
  have hkept : keptNodes content =
      if (Node.text content).isIndentation then [] else [.text content] := by
    have hjoin : Node.joinTexts [.text content] = [.text content] :=
      Node.joinText_of_not_isText hempty rfl
    rw [keptNodes, textNodes_of_ne hempty]
    change (Node.joinTexts [.text content]).filter (! ·.isIndentation) = _
    rw [hjoin]
    cases hlayout : (Node.text content).isIndentation <;> simp [hlayout]
  rw [hkept]
  cases hlayout : (Node.text content).isIndentation with
  | true =>
    refine ⟨.inr rfl, iff_of_true rfl (.inr ?_)⟩
    exact isIndentation_text_iff.1 hlayout
  | false =>
    have htext : Node.innerTextOfList [.text content] = content := by
      simp [Node.innerTextOfList, Node.innerText]
    have hno : ¬ ('\n' ∈ content.toList ∧ ∀ c ∈ content.toList, Text.isBlank c = true) := by
      rw [← isIndentation_text_iff, hlayout]
      exact Bool.false_ne_true
    rw [if_neg Bool.false_ne_true, htext]
    exact ⟨.inl rfl, iff_of_false hempty (not_or.2 ⟨hempty, hno⟩)⟩

theorem isClean_textNodes (summary remarks : String) :
    MemberProse.IsClean ⟨textNodes summary, textNodes remarks⟩ := by
  have htext (content : String) : ∀ node ∈ textNodes content, node.all Node.isClean = true := by
    intro node hnode
    rw [textNodes] at hnode
    split at hnode
    · cases hnode
    · obtain rfl := List.mem_singleton.1 hnode
      rfl
  exact ⟨htext summary, htext remarks⟩

namespace TypeDoc

/-- Where `m` was, the reloaded documentation has the member `found` with the texts in its fields. All
nodes outside the two fields are as they were. -/
structure EditSurvives (d : TypeDoc) (name : String) (m : MemberDoc) (summary remarks : String)
    (reloaded : TypeDoc) (found : MemberDoc) : Prop where
  member : reloaded.member? name = some found
  inSummary : ∃ e, found.summary? = some e ∧ ReadsBack summary e.text
  inRemarks : ∃ e, found.remarks? = some e ∧ ReadsBack remarks e.text
  outside : d.ReplacesMember name m found reloaded
  inside : ∃ fields : m.Fields,
    fields.Refilled ⟨keptNodes summary, keptNodes remarks⟩ found

theorem editSurvives_overwrite {d : TypeDoc} {name : String} {m : MemberDoc}
    (hmember : d.member? name = some m) (fields : m.Fields) (summary remarks : String) :
    let prose : MemberProse := ⟨keptNodes summary, keptNodes remarks⟩
    d.EditSurvives name m summary remarks (d.overwrite (.only name prose))
      (m.fill (some prose)) := by
  intro prose
  have hrefilled : fields.Refilled prose (m.fill (some prose)) := fields.refilled_fill prose
  constructor
  case member => simp [member?_overwrite, hmember, ProseTable.only]
  case inSummary => exact ⟨_, hrefilled.summary, readsBack_keptNodes summary⟩
  case inRemarks => exact ⟨_, hrefilled.remarks, readsBack_keptNodes remarks⟩
  case outside => exact replacesMember_overwrite hmember
  case inside => exact ⟨fields, hrefilled⟩

/-- Whatever texts are put into the fields of a member survive that the documentation is saved and
loaded again, and all else in it stays the same. -/
theorem parse_render_setTexts {content : String} {d : TypeDoc}
    (hparse : TypeDoc.parse content = .ok d)
    (hnames : d.document.root.toNode.all Node.hasCleanNames = true) {name : String} {m : MemberDoc}
    (hmember : d.member? name = some m) (hfields : m.hasFields = true) (summary remarks : String) :
    ∃ edited reloaded found, d.changeMember? name (·.setTexts? summary remarks) = some edited ∧
      TypeDoc.parse edited.render = .ok reloaded ∧
      d.EditSurvives name m summary remarks reloaded found := by
  obtain ⟨fields⟩ := MemberDoc.hasFields_iff.1 hfields
  have hany : (d.member? name).any MemberDoc.hasFields = true := by
    rw [hmember, Option.any_some, hfields]
  have hedited := (d.changeMember?_setTexts? name summary remarks).trans (if_pos hany)
  have hreloaded : TypeDoc.parse
      (d.overwrite (.only name ⟨textNodes summary, textNodes remarks⟩)).render =
        .ok (d.overwrite (.only name ⟨keptNodes summary, keptNodes remarks⟩)) :=
    parse_render_overwrite (isClean_textNodes summary remarks) (isSettled_of_parse hparse hnames)
  exact ⟨_, _, _, hedited, hreloaded, editSurvives_overwrite hmember fields summary remarks⟩

/-- One text is made of what markup is made of, and the other one only looks like layout. There is a
second summary in the member, and a second member of the name. -/
theorem parse_render_setTexts_marked :
    let summary := "]]> \"&lt;\" <b/>\r\n\u0000"
    let remarks := " \n\u00a0"
    let member (fields : List Node) : Element :=
      ⟨"Member", [⟨"MemberName", "F"⟩], [.element "Docs" [] fields]⟩
    let d (fields : List Node) : TypeDoc := ⟨[], ⟨"Type", [], [.element "Members" []
      [(member fields).toNode, (member []).toNode]]⟩⟩
    let before : List Node := [.element "summary" [] [], .element "remarks" [] [.text "old"],
      .element "summary" [] [.text "second"]]
    let edited : List Node := [.element "summary" [] [.text summary],
      .element "remarks" [] [.text remarks], .element "summary" [] [.text "second"]]
    let after : List Node := [.element "summary" [] [.text summary], .element "remarks" [] [],
      .element "summary" [] [.text "second"]]
    (d before).changeMember? "F" (·.setTexts? summary remarks) = some (d edited) ∧
      TypeDoc.parse (d edited).render = .ok (d after) ∧
      ∃ found, (d before).EditSurvives "F" ⟨member before⟩ summary remarks (d after) found := by
  intro summary remarks member d before edited after
  have hparse : TypeDoc.parse (d before).render = .ok (d before) :=
    parse_render_eq_norm (by decide +kernel)
  have hmember : (d before).member? "F" = some ⟨member before⟩ := rfl
  have hchanged : (d before).changeMember? "F" (·.setTexts? summary remarks) = some (d edited) :=
    rfl
  have hclean : (d edited).document.isClean = true := by decide
  have hnorm : (d edited).norm = d after := by decide +kernel
  have hreloaded : TypeDoc.parse (d edited).render = .ok (d after) := by
    rw [← hnorm]
    exact parse_render_eq_norm hclean
  obtain ⟨_, _, found, hedited, hloaded, hsurvives⟩ :=
    parse_render_setTexts hparse (by decide +kernel) hmember rfl summary remarks
  obtain rfl := Option.some.inj (hchanged.symm.trans hedited)
  obtain rfl := Except.ok.inj (hreloaded.symm.trans hloaded)
  exact ⟨hchanged, hreloaded, found, hsurvives⟩

end TypeDoc

end ApiDocs
