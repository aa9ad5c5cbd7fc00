import ApiDocs.Proofs.Merge.Writes
import ApiDocs.Proofs.Xml.Settled

/-!
# Merging settled documentation

What a merge writes is settled: the prose for methods always, and the nodes of a fragment if the
fragment is. So a merge keeps documentation settled, and what it has merged is written and read back
as it is.
-/

namespace ApiDocs

open Xml

/-- The new content can be put into fields of settled elements. -/
structure MemberProse.IsSettled (prose : MemberProse) : Prop where
  summary : Node.AreSettled prose.summary
  remarks : Node.AreSettled prose.remarks

/-- All prose of the table is settled. -/
def ProseTable.IsSettled (table : ProseTable) : Prop :=
  ∀ name, ∀ prose ∈ table name, prose.IsSettled

namespace ProseTable

theorem isSettled_empty : empty.IsSettled := by
  intro name prose hprose
  cases hprose

theorem isSettled_followedBy {earlier later : ProseTable} (hearlier : earlier.IsSettled)
    (hlater : later.IsSettled) : (earlier.followedBy later).IsSettled := by
  intro name prose hprose
  rcases Option.or_eq_some_iff.1 hprose with hprose | ⟨-, hprose⟩
  · exact hlater name prose hprose
  · exact hearlier name prose hprose

theorem isSettled_without {table : ProseTable} (h : table.IsSettled) (name : String) :
    (table.without name).IsSettled := by
  intro other prose hprose
  simp only [without] at hprose
  split at hprose
  · cases hprose
  · exact h other prose hprose

theorem isSettled_ofWrites {writes : List (String × MemberProse)}
    (h : ∀ write ∈ writes, write.2.IsSettled) : (ofWrites writes).IsSettled := by
  intro name prose hprose
  obtain ⟨before, after, heq, -⟩ := List.lookup_eq_some_iff.1 hprose
  exact h (name, prose) (List.mem_reverse.1 (by rw [heq]; simp))

end ProseTable

/-! ## Overwriting -/

theorem MemberDoc.isSettled_fill {prose : Option MemberProse}
    (hprose : ∀ p ∈ prose, p.IsSettled) {m : MemberDoc} (hm : m.element.IsSettled) :
    (m.fill prose).element.IsSettled := by
  cases prose with
  | none => exact hm
  | some prose =>
    have hsettled := hprose prose rfl
    refine Element.isSettled_mapChild (fun docs hdocs => ?_) "Docs" hm
    refine Element.isSettled_mapChild (fun e he => ?_) "remarks" ?_
    · exact Element.isSettled_withChildren he hsettled.remarks
    · exact Element.isSettled_mapChild
        (fun e he => Element.isSettled_withChildren he hsettled.summary) "summary" hdocs

namespace TypeDoc

/-- The documentation is written and read back as it is. -/
def IsSettled (d : TypeDoc) : Prop :=
  d.document.IsSettled

theorem head?_fillMembers (table : ProseTable) (nodes : List Node) :
    (fillMembers table nodes).head?.any Node.isText = nodes.head?.any Node.isText := by
  cases nodes with
  | nil => rfl
  | cons node rest =>
    rcases eq_toNode_or_notMember node with ⟨e, name, rfl, hname⟩ | hnode
    · rw [fillMembers_cons_of_member hname]
      rfl
    · rw [fillMembers_cons_of_notMember hnode]
      rfl

theorem isTidyList_fillMembers (table : ProseTable) (nodes : List Node) :
    Node.isTidyList (fillMembers table nodes) = Node.isTidyList nodes := by
  induction nodes generalizing table with
  | nil => rfl
  | cons node rest ih =>
    rcases eq_toNode_or_notMember node with ⟨e, name, rfl, hname⟩ | hnode
    · rw [fillMembers_cons_of_member hname]
      exact ih (table.without name)
    · rw [fillMembers_cons_of_notMember hnode]
      cases node with
      | text content => rw [Node.isTidyList, Node.isTidyList, head?_fillMembers, ih]
      | _ => exact ih table

theorem areSettled_fillMembers {table : ProseTable} (htable : table.IsSettled) {nodes : List Node}
    (h : Node.AreSettled nodes) : Node.AreSettled (fillMembers table nodes) := by
  refine ⟨(isTidyList_fillMembers table nodes).trans h.tidy, ?_⟩
  have hnodes := h.settled
  clear h
  induction nodes generalizing table with
  | nil => exact hnodes
  | cons node rest ih =>
    obtain ⟨hnode, hrest⟩ := List.forall_mem_cons.1 hnodes
    rcases eq_toNode_or_notMember node with ⟨e, name, rfl, hname⟩ | hmember
    · rw [fillMembers_cons_of_member hname]
      exact List.forall_mem_cons.2 ⟨MemberDoc.isSettled_fill (htable name) hnode,
        ih (ProseTable.isSettled_without htable name) hrest⟩
    · rw [fillMembers_cons_of_notMember hmember]
      exact List.forall_mem_cons.2 ⟨hnode, ih htable hrest⟩

theorem isSettled_overwrite {table : ProseTable} (htable : table.IsSettled) {d : TypeDoc}
    (hd : d.IsSettled) : (d.overwrite table).IsSettled := by
  unfold overwrite
  split
  · refine ⟨hd.prolog, Element.isSettled_mapChild (fun members hmembers => ?_) "Members" hd.root⟩
    exact Element.isSettled_withChildren hmembers (areSettled_fillMembers htable hmembers.children)
  · exact hd

theorem isSettled_of_parse {content : String} {d : TypeDoc} (h : TypeDoc.parse content = .ok d)
    (hnames : d.document.root.toNode.all Node.hasCleanNames = true) : d.IsSettled := by
  unfold TypeDoc.parse at h
  cases hparse : Document.parse (dropByteOrderMark content) with
  | error cause =>
    rw [hparse] at h
    cases h
  | ok document =>
    rw [hparse] at h
    cases h
    exact Document.isSettled_of_parse hparse hnames

theorem IsSettled.parse_render {d : TypeDoc} (h : d.IsSettled) :
    TypeDoc.parse d.render = .ok d := by
  rw [TypeDoc.parse, render, Document.IsSettled.dropByteOrderMark_render h,
    Document.IsSettled.parse_render h]
  rfl

end TypeDoc

/-! ## What a merge writes -/

theorem isTidyList_text {content : String} (h : isVisible content = true) :
    Node.isTidyList [.text content] = true := by
  have hall : content.toList.all Text.isBlank = false := by
    rw [Bool.eq_false_iff]
    intro hall
    obtain ⟨c, hc, hblank⟩ := List.any_eq_true.1 h
    simp [List.all_eq_true.1 hall c hc] at hblank
  simp [Node.isTidyList, Node.isIndentation, hall, ne_empty_of_isVisible h]

theorem isSettled_methodProse (method : ApiMember) (property : String) :
    (methodProse method property).IsSettled := by
  obtain ⟨hsummary, hremarks⟩ := isVisible_proseFor method property
  have htext (content : String) : ∀ node ∈ [Node.text content], node.all Node.isSettled = true := by
    intro node hnode
    obtain rfl := List.mem_singleton.1 hnode
    rfl
  exact ⟨⟨isTidyList_text hsummary, htext _⟩, ⟨isTidyList_text hremarks, htext _⟩⟩

theorem isSettled_methodWrites {group : EventGroup} {method : ApiMember} {d : TypeDoc} :
    ∀ write ∈ methodWrites group method d, write.2.IsSettled := by
  intro write hwrite
  unfold methodWrites at hwrite
  split at hwrite
  · obtain rfl := List.mem_singleton.1 hwrite
    exact isSettled_methodProse method group.property
  · cases hwrite

theorem isSettled_groupWrites {catalog : Catalog} {group : EventGroup} {d : TypeDoc} :
    ∀ write ∈ groupWrites catalog group d, write.2.IsSettled := by
  intro write hwrite
  unfold groupWrites at hwrite
  split at hwrite
  · cases hwrite
  · obtain ⟨method, -, hwrite⟩ := List.mem_flatMap.1 hwrite
    exact isSettled_methodWrites write hwrite

/-- The fragments that a library gives out are settled where their nodes are. -/
theorem FragmentLibrary.areSettled_content {e : Element} (h : e.IsSettled) :
    Node.AreSettled (FragmentLibrary.content e) := by
  unfold content
  cases hsection : e.find? isSection with
  | none => exact h.children
  | some found => exact (Node.isSettled_of_find? e.toNode h hsection).children

theorem FragmentLibrary.isSettled_of_read {d : Disk} {path : String} {e : Element}
    (h : FragmentLibrary.read d path = .ok e)
    (hnames : e.toNode.all Node.hasCleanNames = true) : e.IsSettled := by
  unfold FragmentLibrary.read at h
  split at h
  · cases h
  · split at h
    · cases h
    · next document hparse =>
      cases h
      exact (Document.isSettled_of_parse hparse hnames).root

end ApiDocs
