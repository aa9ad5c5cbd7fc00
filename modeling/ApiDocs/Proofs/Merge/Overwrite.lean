import ApiDocs.Proofs.Xml.Child
import ApiDocs.TypeDoc

/-!
# Overwriting the prose of members

To overwrite documentation is to put new content into the summary and the remarks of members, in
one pass over the document: for each name the first member counts, and nothing outside its two
fields is touched. No overwriting shows in a later lookup of a member, in the type of its value, or
in whether it has its fields, and of two overwritings of one member the later counts.
-/

namespace ApiDocs

open Xml

/-- New content for the summary and the remarks of a member. -/
structure MemberProse where
  summary : List Node
  remarks : List Node
  deriving DecidableEq, Repr

/-- The prose to give to the members of each name. -/
abbrev ProseTable := String → Option MemberProse

namespace ProseTable

/-- Nothing to give. -/
def empty : ProseTable := fun _ => none

/-- Prose for the members of one name. -/
def only (name : String) (prose : MemberProse) : ProseTable :=
  fun other => if other = name then some prose else none

/-- The table without its prose for a name. -/
def without (name : String) (table : ProseTable) : ProseTable :=
  fun other => if other = name then none else table other

/-- The prose of `later` where it gives some, and that of `earlier` elsewhere. -/
def followedBy (earlier later : ProseTable) : ProseTable :=
  fun name => (later name).or (earlier name)

@[simp] theorem without_empty (name : String) : without name empty = empty := by
  funext other
  simp [without, empty]

@[simp] theorem without_only (name : String) (prose : MemberProse) :
    without name (only name prose) = empty := by
  funext other
  simp only [without, only, empty]
  split <;> simp_all

theorem without_only_of_ne {name other : String} (h : other ≠ name) (prose : MemberProse) :
    without other (only name prose) = only name prose := by
  funext x
  by_cases hx : x = other <;> simp [without, only, hx, h]

theorem without_followedBy (name : String) (earlier later : ProseTable) :
    without name (followedBy earlier later) =
      followedBy (without name earlier) (without name later) := by
  funext other
  by_cases h : other = name <;> simp [without, followedBy, h]

theorem followedBy_self (table : ProseTable) : table.followedBy table = table := by
  funext name
  simp [followedBy]

end ProseTable

namespace MemberDoc

/-- Puts prose into the fields among the children of an element. -/
def fillFields (prose : MemberProse) (docs : Element) : Element :=
  (docs.mapChild "summary" (.withChildren prose.summary)).mapChild "remarks"
    (.withChildren prose.remarks)

/-- Puts prose into the fields of a member. Without prose the member stays. -/
def fill : Option MemberProse → MemberDoc → MemberDoc
  | none, m => m
  | some prose, m => ⟨m.element.mapChild "Docs" (fillFields prose)⟩

@[simp] theorem name_element_fill (prose : Option MemberProse) (m : MemberDoc) :
    (m.fill prose).element.name = m.element.name := by
  cases prose <;> rfl

@[simp] theorem attributes_element_fill (prose : Option MemberProse) (m : MemberDoc) :
    (m.fill prose).element.attributes = m.element.attributes := by
  cases prose <;> rfl

theorem keepsName_fillFields {prose : MemberProse} : Element.KeepsName (fillFields prose) :=
  fun _ => rfl

theorem fillFields_fillFields (earlier later : MemberProse) (docs : Element) :
    fillFields later (fillFields earlier docs) = fillFields later docs := by
  rw [fillFields, fillFields, fillFields]
  -- the later summary moves past the earlier remarks
  rw [Element.mapChild_comm (g := .withChildren earlier.remarks)
      Element.keepsName_withChildren Element.keepsName_withChildren (by decide),
    Element.mapChild_mapChild Element.keepsName_withChildren,
    Element.mapChild_mapChild Element.keepsName_withChildren]
  rfl

theorem fill_fill (earlier later : Option MemberProse) (m : MemberDoc) :
    (m.fill earlier).fill later = m.fill (later.or earlier) := by
  cases later with
  | none => rfl
  | some later =>
    cases earlier with
    | none => rfl
    | some earlier =>
      simp only [fill, Option.some_or, Element.mapChild_mapChild keepsName_fillFields,
        fillFields_fillFields]

@[simp] theorem returnType?_fill (prose : Option MemberProse) (m : MemberDoc) :
    (m.fill prose).returnType? = m.returnType? := by
  cases prose with
  | none => rfl
  | some prose =>
    simp only [returnType?, fill, Element.descend?]
    rw [Element.child?_mapChild_of_ne keepsName_fillFields (by decide)]

theorem child?_summary_fillFields (prose : MemberProse) (docs : Element) :
    (fillFields prose docs).child? "summary" =
      (docs.child? "summary").map (.withChildren prose.summary) := by
  rw [fillFields, Element.child?_mapChild_of_ne Element.keepsName_withChildren (by decide),
    Element.child?_mapChild Element.keepsName_withChildren]

theorem child?_remarks_fillFields (prose : MemberProse) (docs : Element) :
    (fillFields prose docs).child? "remarks" =
      (docs.child? "remarks").map (.withChildren prose.remarks) := by
  rw [fillFields, Element.child?_mapChild Element.keepsName_withChildren,
    Element.child?_mapChild_of_ne Element.keepsName_withChildren (by decide)]

theorem hasFields_eq (m : MemberDoc) :
    m.hasFields = (m.element.child? "Docs").any fun docs =>
      (docs.child? "summary").isSome && (docs.child? "remarks").isSome := by
  simp only [hasFields, summary?, remarks?, summaryPath, remarksPath, Element.descend?]
  cases m.element.child? "Docs" with
  | none => rfl
  | some docs => simp

@[simp] theorem hasFields_fill (prose : Option MemberProse) (m : MemberDoc) :
    (m.fill prose).hasFields = m.hasFields := by
  cases prose with
  | none => rfl
  | some prose =>
    rw [hasFields_eq, hasFields_eq, fill, Element.child?_mapChild keepsName_fillFields]
    cases m.element.child? "Docs" with
    | none => rfl
    | some docs => simp [child?_summary_fillFields, child?_remarks_fillFields]

/-- To replace the content of both fields takes both fields. -/
theorem changeFields?_withChildren (prose : MemberProse) (m : MemberDoc) :
    m.changeFields? (.withChildren prose.summary) (.withChildren prose.remarks) =
      if m.hasFields then some (m.fill (some prose)) else none := by
  rw [hasFields_eq]
  simp only [changeFields?, Element.change?_eq, summaryPath, remarksPath, Element.descend?,
    Element.mapPath]
  cases hdocs : m.element.child? "Docs" with
  | none => rfl
  | some docs =>
    cases hsummary : docs.child? "summary" with
    | none => simp [hsummary]
    | some summary =>
      simp only [Option.bind_some, hsummary, Option.map_some, Option.bind_eq_bind,
        Element.child?_mapChild Element.keepsName_mapChild, hdocs,
        Element.child?_mapChild_of_ne Element.keepsName_withChildren
          (show "summary" ≠ "remarks" by decide),
        Element.mapChild_mapChild Element.keepsName_mapChild]
      cases hremarks : docs.child? "remarks" with
      | none => simp [hremarks]
      | some remarks =>
        rw [Option.any_some, hsummary, hremarks]
        rfl

end MemberDoc

namespace TypeDoc

/-- The name under which an element documents a member. -/
def memberName? (e : Element) : Option String :=
  if e.name = "Member" then e.attribute? "MemberName" else none

/-- Gives prose to the first member of each name among the nodes. -/
def fillMembers (table : ProseTable) : List Node → List Node
  | [] => []
  | node :: rest =>
    match node.element? with
    | none => node :: fillMembers table rest
    | some e =>
      match memberName? e with
      | none => node :: fillMembers table rest
      | some name =>
        (MemberDoc.fill (table name) ⟨e⟩).element.toNode :: fillMembers (table.without name) rest

/-- Gives prose to the members among the children of an element. -/
def overwriteMembers (table : ProseTable) (members : Element) : Element :=
  members.withChildren (fillMembers table members.children)

/-- Gives prose to the first member of each name. -/
def overwrite (table : ProseTable) (d : TypeDoc) : TypeDoc :=
  if d.document.root.name = "Type" then
    ⟨{ d.document with root := d.document.root.mapChild "Members" (overwriteMembers table) }⟩
  else d

/-! ## One step along the members -/

theorem isMember_iff {name : String} {e : Element} :
    isMember name e = true ↔ memberName? e = some name := by
  simp only [isMember, memberName?, Bool.and_eq_true, decide_eq_true_eq]
  split <;> simp_all

theorem memberName?_fill (prose : Option MemberProse) (e : Element) :
    memberName? (MemberDoc.fill prose ⟨e⟩).element = memberName? e := by
  simp [memberName?, Element.attribute?]

theorem eq_toNode_or_notMember (node : Node) :
    (∃ e name, node = e.toNode ∧ memberName? e = some name) ∨
      node.element?.bind memberName? = none := by
  cases helement : node.element? with
  | none => exact .inr rfl
  | some e =>
    cases hname : memberName? e with
    | none => exact .inr hname
    | some name => exact .inl ⟨e, name, Node.element?_eq_some_iff.1 helement, hname⟩

theorem fillMembers_cons_of_member {e : Element} {name : String} (h : memberName? e = some name)
    (table : ProseTable) (rest : List Node) :
    fillMembers table (e.toNode :: rest) =
      (MemberDoc.fill (table name) ⟨e⟩).element.toNode :: fillMembers (table.without name) rest := by
  simp [fillMembers, h]

theorem fillMembers_cons_of_notMember {node : Node} (h : node.element?.bind memberName? = none)
    (table : ProseTable) (rest : List Node) :
    fillMembers table (node :: rest) = node :: fillMembers table rest := by
  rw [fillMembers]
  cases helement : node.element? with
  | none => rfl
  | some e => simp_all

theorem any_isMember_of_notMember {node : Node} (h : node.element?.bind memberName? = none)
    (name : String) : node.element?.any (isMember name) = false := by
  cases helement : node.element? with
  | none => rfl
  | some e =>
    rw [helement, Option.bind_some] at h
    simp [Bool.eq_false_iff, isMember_iff, h]

/-! ## All members -/

@[simp] theorem fillMembers_empty (nodes : List Node) : fillMembers .empty nodes = nodes := by
  induction nodes with
  | nil => rfl
  | cons node rest ih =>
    rcases eq_toNode_or_notMember node with ⟨e, name, rfl, hname⟩ | hnode
    · rw [fillMembers_cons_of_member hname, ProseTable.without_empty, ih]
      rfl
    · rw [fillMembers_cons_of_notMember hnode, ih]

theorem fillMembers_fillMembers (earlier later : ProseTable) (nodes : List Node) :
    fillMembers later (fillMembers earlier nodes) =
      fillMembers (earlier.followedBy later) nodes := by
  -- both tables lose a name at the first member of that name
  induction nodes generalizing earlier later with
  | nil => rfl
  | cons node rest ih =>
    rcases eq_toNode_or_notMember node with ⟨e, name, rfl, hname⟩ | hnode
    · rw [fillMembers_cons_of_member hname, fillMembers_cons_of_member hname,
        fillMembers_cons_of_member ((memberName?_fill _ e).trans hname), ih,
        ProseTable.without_followedBy]
      exact congrArg (·.element.toNode :: _) (MemberDoc.fill_fill _ _ _)
    · rw [fillMembers_cons_of_notMember hnode, fillMembers_cons_of_notMember hnode,
        fillMembers_cons_of_notMember hnode, ih]

theorem first?_fillMembers (table : ProseTable) (name : String) (nodes : List Node) :
    Node.first? (isMember name) (fillMembers table nodes) =
      (Node.first? (isMember name) nodes).map fun e =>
        (MemberDoc.fill (table name) ⟨e⟩).element := by
  induction nodes generalizing table with
  | nil => rfl
  | cons node rest ih =>
    rcases eq_toNode_or_notMember node with ⟨e, found, rfl, hfound⟩ | hnode
    · rw [fillMembers_cons_of_member hfound]
      by_cases h : name = found
      · subst h
        rw [Node.first?_cons_of_pos (isMember_iff.2 hfound), Node.first?_cons_of_pos
          (isMember_iff.2 ((memberName?_fill _ e).trans hfound)), Option.map_some]
      · have hmember : isMember name e = false := by
          simp [Bool.eq_false_iff, isMember_iff, hfound, Ne.symm h]
        have hfilled : isMember name (MemberDoc.fill (table found) ⟨e⟩).element = false := by
          simp [Bool.eq_false_iff, isMember_iff, memberName?_fill, hfound, Ne.symm h]
        rw [Node.first?_cons_of_neg (by simpa using hfilled),
          Node.first?_cons_of_neg (by simpa using hmember), ih]
        simp [ProseTable.without, h]
    · rw [fillMembers_cons_of_notMember hnode,
        Node.first?_cons_of_neg (any_isMember_of_notMember hnode name),
        Node.first?_cons_of_neg (any_isMember_of_notMember hnode name), ih]

/-- To fill the first member of one name is to overwrite with prose for that name alone. -/
theorem mapFirst_isMember (name : String) (prose : MemberProse) (nodes : List Node) :
    Node.mapFirst (isMember name) (fun e => (MemberDoc.fill (some prose) ⟨e⟩).element) nodes =
      fillMembers (.only name prose) nodes := by
  induction nodes with
  | nil => rfl
  | cons node rest ih =>
    rcases eq_toNode_or_notMember node with ⟨e, found, rfl, hfound⟩ | hnode
    · rw [fillMembers_cons_of_member hfound]
      by_cases h : found = name
      · subst h
        rw [Node.mapFirst_cons_of_pos (isMember_iff.2 hfound), ProseTable.without_only,
          fillMembers_empty]
        simp [ProseTable.only]
      · have hmember : isMember name e = false := by
          simp [Bool.eq_false_iff, isMember_iff, hfound, h]
        rw [Node.mapFirst_cons_of_neg (by simpa using hmember), ih,
          ProseTable.without_only_of_ne h]
        simp [ProseTable.only, h, MemberDoc.fill]
    · rw [Node.mapFirst_cons_of_neg (any_isMember_of_notMember hnode name),
        fillMembers_cons_of_notMember hnode, ih]

/-! ## Whole documents -/

theorem keepsName_overwriteMembers {table : ProseTable} :
    Element.KeepsName (overwriteMembers table) :=
  fun _ => rfl

variable (d : TypeDoc)

@[simp] theorem overwrite_empty : d.overwrite .empty = d := by
  rw [overwrite]
  split
  · have hmembers : overwriteMembers .empty = fun members => members := by
      funext members
      rw [overwriteMembers, fillMembers_empty]
      rfl
    rw [hmembers, Element.mapChild_id]
  · rfl

/-- Of two overwritings the later counts where it gives prose. -/
theorem overwrite_overwrite (earlier later : ProseTable) :
    (d.overwrite earlier).overwrite later = d.overwrite (earlier.followedBy later) := by
  by_cases hroot : d.document.root.name = "Type"
  · simp only [overwrite, if_pos hroot, Element.name_mapChild, TypeDoc.mk.injEq,
      Document.mk.injEq, true_and]
    rw [Element.mapChild_mapChild keepsName_overwriteMembers]
    refine Element.mapChild_congr fun members _ => ?_
    simp only [overwriteMembers, Element.withChildren, fillMembers_fillMembers]
  · simp [overwrite, hroot]

theorem member?_eq (name : String) :
    d.member? name =
      if d.document.root.name = "Type" then
        (d.document.root.child? "Members").bind fun members =>
          (Node.first? (isMember name) members.children).map .mk
      else none := by
  rw [member?]
  split
  · cases d.document.root.child? "Members" with
    | none => rfl
    | some members =>
      change (Node.first? (isMember name) members.children).bind _ = _
      simp only [Option.bind_some]
      cases Node.first? (isMember name) members.children <;> rfl
  · rfl

theorem member?_eq_some_iff {name : String} {m : MemberDoc} :
    d.member? name = some m ↔ d.document.root.name = "Type" ∧
      ∃ members, d.document.root.child? "Members" = some members ∧
        Node.first? (isMember name) members.children = some m.element := by
  rw [member?_eq]
  by_cases hroot : d.document.root.name = "Type"
  · simp only [hroot, if_true, true_and, Option.bind_eq_some_iff, Option.map_eq_some_iff]
    refine exists_congr fun members => and_congr_right' ⟨?_, fun h => ⟨m.element, h, rfl⟩⟩
    rintro ⟨e, he, rfl⟩
    exact he
  · simp [hroot]

/-- A member of overwritten documentation is the member that it was, with its prose. -/
theorem member?_overwrite (table : ProseTable) (name : String) :
    (d.overwrite table).member? name = (d.member? name).map (MemberDoc.fill (table name)) := by
  rw [member?_eq, member?_eq]
  by_cases hroot : d.document.root.name = "Type"
  · simp only [overwrite, if_pos hroot, Element.name_mapChild]
    rw [Element.child?_mapChild keepsName_overwriteMembers]
    cases d.document.root.child? "Members" with
    | none => rfl
    | some members =>
      simp only [Option.map_some, Option.bind_some, overwriteMembers, Element.withChildren,
        first?_fillMembers]
      cases Node.first? (isMember name) members.children <;> rfl
  · simp [overwrite, hroot]

/-! ## One member -/

/-- Changes the first member with this name among the children of an element. -/
def mapMemberAmong (name : String) (change : MemberDoc → MemberDoc) (members : Element) : Element :=
  members.withChildren
    (Node.mapFirst (isMember name) (fun e => (change ⟨e⟩).element) members.children)

/-- Changes the documentation of the member with this name, if there is one. -/
def mapMember (name : String) (change : MemberDoc → MemberDoc) (d : TypeDoc) : TypeDoc :=
  if d.document.root.name = "Type" then
    ⟨{ d.document with root := d.document.root.mapChild "Members" (mapMemberAmong name change) }⟩
  else d

theorem mapMember_congr {name : String} {f g : MemberDoc → MemberDoc}
    (h : ∀ m, d.member? name = some m → f m = g m) : d.mapMember name f = d.mapMember name g := by
  rw [mapMember, mapMember]
  by_cases hroot : d.document.root.name = "Type"
  · rw [if_pos hroot, if_pos hroot]
    simp only [TypeDoc.mk.injEq, Document.mk.injEq, true_and]
    refine Element.mapChild_congr fun members hmembers => congrArg (members.withChildren ·) ?_
    refine Node.mapFirst_congr fun e he => ?_
    rw [h ⟨e⟩ (d.member?_eq_some_iff.2 ⟨hroot, members, hmembers, he⟩)]
  · rw [if_neg hroot, if_neg hroot]

theorem changeChild?_isMember (name : String) (change : MemberDoc → Option MemberDoc)
    (members : Element) :
    members.changeChild? (isMember name) (fun e => (change ⟨e⟩).map (·.element)) =
      ((Node.first? (isMember name) members.children).bind fun e => change ⟨e⟩).map
        fun changed => mapMemberAmong name (fun _ => changed) members := by
  rw [Element.changeChild?, Node.changeFirst?_eq]
  cases Node.first? (isMember name) members.children with
  | none => rfl
  | some e =>
    rw [Option.bind_some, Option.bind_some]
    cases change ⟨e⟩ <;> rfl

/-- A partial change of a member, in terms of the total one. -/
theorem changeMember?_eq (name : String) (change : MemberDoc → Option MemberDoc) :
    d.changeMember? name change =
      ((d.member? name).bind change).map fun changed => d.mapMember name fun _ => changed := by
  rw [member?_eq, changeMember?]
  by_cases hroot : d.document.root.name = "Type"
  · rw [if_pos hroot, if_pos hroot, Element.changeChild?_eq]
    cases hmembers : d.document.root.child? "Members" with
    | none => rfl
    | some members =>
      rw [Option.bind_some, Option.bind_some, changeChild?_isMember, Option.bind_map]
      change _ = ((Node.first? (isMember name) members.children).bind fun e => change ⟨e⟩).map _
      cases (Node.first? (isMember name) members.children).bind fun e => change ⟨e⟩ with
      | none => rfl
      | some changed =>
        have hchild : (d.document.root.mapChild "Members" fun _ =>
            mapMemberAmong name (fun _ => changed) members) =
              d.document.root.mapChild "Members" (mapMemberAmong name fun _ => changed) :=
          Element.mapChild_congr fun x hx => by rw [Option.some.inj (hmembers.symm.trans hx)]
        rw [Option.map_some, Option.map_some, Option.map_some, mapMember, if_pos hroot, ← hchild]
        rfl
  · rw [if_neg hroot, if_neg hroot]
    rfl

/-- To overwrite with prose for one name is to fill the member with that name. -/
theorem overwrite_only (name : String) (prose : MemberProse) :
    d.overwrite (.only name prose) = d.mapMember name (MemberDoc.fill (some prose)) := by
  have hmembers :
      mapMemberAmong name (MemberDoc.fill (some prose)) = overwriteMembers (.only name prose) := by
    funext members
    rw [mapMemberAmong, mapFirst_isMember, overwriteMembers]
  rw [overwrite, mapMember, hmembers]

/-- To replace the prose of a member takes a member with both fields, and overwrites it. -/
theorem changeMember?_withChildren (name : String) (prose : MemberProse) :
    d.changeMember? name
        (MemberDoc.changeFields? (.withChildren prose.summary) (.withChildren prose.remarks)) =
      if (d.member? name).any MemberDoc.hasFields then some (d.overwrite (.only name prose))
      else none := by
  rw [changeMember?_eq, overwrite_only]
  cases hmember : d.member? name with
  | none => rfl
  | some m =>
    rw [Option.bind_some, MemberDoc.changeFields?_withChildren, Option.any_some]
    cases m.hasFields with
    | false => rfl
    | true =>
      simp only [if_true, Option.map_some, Option.some.injEq]
      exact d.mapMember_congr fun x hx => by rw [Option.some.inj (hmember.symm.trans hx)]

end TypeDoc

end ApiDocs
