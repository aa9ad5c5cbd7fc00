import ApiDocs.Merge
import ApiDocs.Proofs.Merge.Overwrite
import ApiDocs.Proofs.Xml.Normal

/-!
# What a merge writes

A merge writes prose to members, in the order of its parts. Which prose goes where can be told from
the documentation as it was in the beginning, since no write shows in what the later parts look at.
So a merge overwrites the documentation once, with the last prose for each name.
-/

namespace ApiDocs

open Xml

/-- Of writes in order, the last one to each name counts. -/
def ProseTable.ofWrites (writes : List (String × MemberProse)) : ProseTable :=
  fun name => writes.reverse.lookup name

namespace ProseTable

@[simp] theorem ofWrites_nil : ofWrites [] = empty := rfl

theorem ofWrites_singleton (name : String) (prose : MemberProse) :
    ofWrites [(name, prose)] = only name prose := by
  funext other
  by_cases h : other = name <;> simp [ofWrites, only, h]

theorem ofWrites_append (first second : List (String × MemberProse)) :
    ofWrites (first ++ second) = (ofWrites first).followedBy (ofWrites second) := by
  funext name
  simp [ofWrites, followedBy, List.lookup_append]

end ProseTable

/-! ## The writes -/

/-- The content of the fragment for a symbol. -/
def FragmentSource.contentFor (source : FragmentSource) (t : ApiType) (symbol : String) :
    Option (List Node) :=
  (source.fragment t symbol).2.map source.content

/-- The prose that a field takes from the fragment for its symbol: two nodes for the summary, and
the others for the remarks. -/
def MergeOptions.fieldProse? (o : MergeOptions) (source : Option FragmentSource) (t : ApiType)
    (symbol : String) (field : MemberDoc) : Option MemberProse :=
  if o.mergeExternal && field.hasFields && o.isNotification field symbol then
    (source.bind fun source => source.contentFor t symbol).map fun content =>
      let nodes := Node.joinTexts content
      ⟨nodes.take summaryNodes, nodes.drop summaryNodes⟩
  else none

/-- What is written for a field that wraps a symbol. -/
def MergeOptions.fieldWrites (o : MergeOptions) (source : Option FragmentSource) (t : ApiType)
    (member : ApiMember) (symbol : String) (d : TypeDoc) : List (String × MemberProse) :=
  ((d.member? member.name).bind (o.fieldProse? source t symbol)).toList.map (member.name, ·)

/-- The prose for a method of a delegate type. -/
def methodProse (method : ApiMember) (property : String) : MemberProse :=
  ⟨[.text (proseFor method property).1], [.text (proseFor method property).2]⟩

def methodWrites (group : EventGroup) (method : ApiMember) (d : TypeDoc) :
    List (String × MemberProse) :=
  if (d.member? method.name).any MemberDoc.hasFields then
    [(method.name, methodProse method group.property)]
  else []

def groupWrites (catalog : Catalog) (group : EventGroup) (d : TypeDoc) :
    List (String × MemberProse) :=
  match catalog.lookup? group.delegateType with
  | none => []
  | some delegate => delegate.methods.flatMap fun method => methodWrites group method d

def MergeTask.writes (o : MergeOptions) (source : Option FragmentSource) (catalog : Catalog)
    (t : ApiType) (d : TypeDoc) : MergeTask → List (String × MemberProse)
  | .field member symbol => o.fieldWrites source t member symbol d
  | .group g => groupWrites catalog g d

/-- Everything that is written for a type, in order. -/
def mergeWrites (o : MergeOptions) (source : Option FragmentSource) (catalog : Catalog)
    (t : ApiType) (binding : EventBinding) (d : TypeDoc) : List (String × MemberProse) :=
  (t.exported.flatMap fun (member, symbol) => o.fieldWrites source t member symbol d) ++
    binding.groups.flatMap fun group => groupWrites catalog group d

/-! ## Parts of a merge -/

/-- The part of a merge overwrites the documentation with what it writes. What it writes and tells
is the same for documentation that was overwritten before. -/
structure Overwrites (part : TypeDoc → Merged) (writes : TypeDoc → List (String × MemberProse)) :
    Prop where
  doc_eq : ∀ d, (part d).doc = d.overwrite (.ofWrites (writes d))
  writes_overwrite : ∀ d table, writes (d.overwrite table) = writes d
  told_overwrite : ∀ d table, (part (d.overwrite table)).report = (part d).report ∧
    (part (d.overwrite table)).notices = (part d).notices

namespace Overwrites

variable {part next : TypeDoc → Merged} {writes others : TypeDoc → List (String × MemberProse)}

theorem idle : Overwrites (fun d => { doc := d }) fun _ => [] where
  doc_eq d := d.overwrite_empty.symm
  writes_overwrite _ _ := rfl
  told_overwrite _ _ := ⟨rfl, rfl⟩

theorem andThen (hpart : Overwrites part writes) (hnext : Overwrites next others) :
    Overwrites (fun d => (part d).andThen next) fun d => writes d ++ others d where
  doc_eq d := by
    rw [Merged.andThen, hnext.doc_eq, hpart.doc_eq, hnext.writes_overwrite,
      TypeDoc.overwrite_overwrite, ProseTable.ofWrites_append]
  writes_overwrite d table := by
    rw [hpart.writes_overwrite, hnext.writes_overwrite]
  told_overwrite d table := by
    simp only [Merged.andThen, hpart.doc_eq, hpart.told_overwrite, hnext.told_overwrite, and_self]

/-- Parts that follow one another write what each of them writes. -/
theorem foldl {α : Type} {step : α → TypeDoc → Merged}
    {stepWrites : α → TypeDoc → List (String × MemberProse)} {items : List α}
    (hpart : Overwrites part writes)
    (hstep : ∀ item ∈ items, Overwrites (step item) (stepWrites item)) :
    Overwrites (fun d => items.foldl (fun m item => m.andThen (step item)) (part d))
      fun d => writes d ++ items.flatMap fun item => stepWrites item d := by
  -- what was folded so far is a part of its own
  induction items generalizing part writes with
  | nil => simpa using hpart
  | cons item rest ih =>
    obtain ⟨hitem, hrest⟩ := List.forall_mem_cons.1 hstep
    simpa only [List.foldl_cons, List.flatMap_cons, List.append_assoc] using
      ih (hpart.andThen hitem) hrest

/-- On what it has left, a part writes over each of its own prose the same prose again. -/
theorem again (hpart : Overwrites part writes) (d : TypeDoc) : part (part d).doc = part d := by
  have hdoc : (part (part d).doc).doc = (part d).doc := by
    rw [hpart.doc_eq (part d).doc, hpart.doc_eq d, hpart.writes_overwrite,
      TypeDoc.overwrite_overwrite, ProseTable.followedBy_self]
  have htold : (part (part d).doc).report = (part d).report ∧
      (part (part d).doc).notices = (part d).notices := by
    rw [hpart.doc_eq d]
    exact hpart.told_overwrite d (.ofWrites (writes d))
  obtain ⟨hreport, hnotices⟩ := htold
  calc part (part d).doc
      = ⟨(part (part d).doc).doc, (part (part d).doc).report, (part (part d).doc).notices⟩ := rfl
    _ = ⟨(part d).doc, (part d).report, (part d).notices⟩ := by rw [hdoc, hreport, hnotices]
    _ = part d := rfl

end Overwrites

/-! ## Fields -/

theorem MemberDoc.splice?_eq (content : List Node) (count : Nat) :
    MemberDoc.splice? content count =
      MemberDoc.changeFields? (.withChildren ((Node.joinTexts content).take count))
        (.withChildren ((Node.joinTexts content).drop count)) := by
  have hjoined := Node.joined_joinTexts content
  rw [← List.take_append_drop count (Node.joinTexts content)] at hjoined
  obtain ⟨htake, hdrop⟩ := Node.joined_of_append hjoined
  have happend {nodes : List Node} (h : Node.Joined nodes) :
      (fun e : Element => e.clear.append nodes) = .withChildren nodes := by
    funext e
    have hmerge := Node.merge_eq_joinTexts nodes
    rw [Node.joinTexts_of_joined h] at hmerge
    exact congrArg (fun children => { e with children }) hmerge
  unfold splice?
  rw [Node.merge_eq_joinTexts]
  simp only [happend htake, happend hdrop]

theorem MergeOptions.isNotification_fill (o : MergeOptions) (prose : Option MemberProse)
    (field : MemberDoc) (symbol : String) :
    o.isNotification (field.fill prose) symbol = o.isNotification field symbol := by
  simp [isNotification]

/-- A fragment goes into the fields of the member that it documents, if that has both. -/
theorem TypeDoc.changeMember?_splice? (d : TypeDoc) (name : String) (content : List Node)
    (count : Nat) :
    d.changeMember? name (MemberDoc.splice? content count) =
      if (d.member? name).any MemberDoc.hasFields then
        some (d.overwrite (.only name
          ⟨(Node.joinTexts content).take count, (Node.joinTexts content).drop count⟩))
      else none := by
  rw [MemberDoc.splice?_eq]
  exact d.changeMember?_withChildren name
    ⟨(Node.joinTexts content).take count, (Node.joinTexts content).drop count⟩

theorem MergeOptions.overwrites_mergeField (o : MergeOptions) (source : Option FragmentSource)
    (t : ApiType) (member : ApiMember) (symbol : String) :
    Overwrites (o.mergeField source t member symbol) (o.fieldWrites source t member symbol) where
  doc_eq d := by
    unfold mergeField fieldWrites
    cases hmember : d.member? member.name with
    | none => simp
    | some field =>
      simp only [Option.bind_some, fieldProse?]
      cases o.mergeExternal with
      | false => simp
      | true =>
        cases o.isNotification field symbol with
        | false => simp
        | true =>
          cases hfields : field.hasFields with
          | false => simp
          | true =>
            simp only [Bool.not_true, Bool.or_self, Bool.and_self, Bool.false_eq_true, if_false,
              if_true]
            cases source with
            | none => simp
            | some source =>
              simp only [Option.bind_some, FragmentSource.contentFor]
              cases (source.fragment t symbol).2 with
              | none => simp
              | some fragment =>
                simp [TypeDoc.changeMember?_splice?, hmember, hfields,
                  ProseTable.ofWrites_singleton]
  writes_overwrite d table := by
    rw [fieldWrites, fieldWrites, TypeDoc.member?_overwrite]
    cases d.member? member.name with
    | none => rfl
    | some field => simp [fieldProse?, isNotification_fill]
  told_overwrite d table := by
    simp only [mergeField, TypeDoc.member?_overwrite]
    cases d.member? member.name with
    | none => exact ⟨rfl, rfl⟩
    | some field =>
      simp only [Option.map_some, isNotification_fill, MemberDoc.hasFields_fill]
      cases !o.mergeExternal || !o.isNotification field symbol with
      | true => exact ⟨rfl, rfl⟩
      | false =>
        cases !field.hasFields with
        | true => exact ⟨rfl, rfl⟩
        | false =>
          simp only [Bool.false_eq_true, if_false]
          split <;> exact ⟨rfl, rfl⟩

/-! ## Methods of delegate types -/

def isVisible (content : String) : Bool :=
  content.toList.any (! Text.isBlank ·)

theorem isVisible_append {s : String} (hs : isVisible s = true) (t : String) :
    isVisible (s ++ t) = true := by
  rw [isVisible, String.toList_append, List.any_append]
  exact Bool.or_eq_true_iff.2 (.inl hs)

theorem ne_empty_of_isVisible {s : String} (h : isVisible s = true) : s ≠ "" := by
  rintro rfl
  cases h

/-- The prose for a method shows something, whatever the property is called. -/
theorem isVisible_proseFor (method : ApiMember) (property : String) :
    isVisible (proseFor method property).1 = true ∧
      isVisible (proseFor method property).2 = true := by
  unfold proseFor
  split
  · exact ⟨show isVisible Prose.delegateSummary = true by decide,
      isVisible_append (isVisible_append (by decide) _) _⟩
  · exact ⟨show isVisible Prose.eventSummary = true by decide, isVisible_append (by decide) _⟩

/-- The children of an element whose text was set. -/
def textNodes (content : String) : List Node :=
  if content = "" then [] else [.text content]

theorem textNodes_of_ne {content : String} (h : content ≠ "") :
    textNodes content = [.text content] :=
  if_neg h

/-- To set the texts of a member takes a member with both fields, and overwrites it. -/
theorem TypeDoc.changeMember?_setTexts? (d : TypeDoc) (name summary remarks : String) :
    d.changeMember? name (MemberDoc.setTexts? summary remarks) =
      if (d.member? name).any MemberDoc.hasFields then
        some (d.overwrite (.only name ⟨textNodes summary, textNodes remarks⟩))
      else none := by
  have hset : MemberDoc.setTexts? summary remarks =
      MemberDoc.changeFields? (.withChildren (textNodes summary))
        (.withChildren (textNodes remarks)) := rfl
  rw [hset]
  exact d.changeMember?_withChildren name ⟨textNodes summary, textNodes remarks⟩

theorem TypeDoc.changeMember?_proseFor (d : TypeDoc) (method : ApiMember) (property : String) :
    d.changeMember? method.name
        (MemberDoc.setTexts? (proseFor method property).1 (proseFor method property).2) =
      if (d.member? method.name).any MemberDoc.hasFields then
        some (d.overwrite (.only method.name (methodProse method property)))
      else none := by
  obtain ⟨hsummary, hremarks⟩ := isVisible_proseFor method property
  rw [changeMember?_setTexts?, textNodes_of_ne (ne_empty_of_isVisible hsummary),
    textNodes_of_ne (ne_empty_of_isVisible hremarks), ← methodProse]

theorem overwrites_documentMethod (group : EventGroup) (method : ApiMember) :
    Overwrites (documentMethod group method) (methodWrites group method) where
  doc_eq d := by
    simp only [documentMethod, methodWrites, TypeDoc.changeMember?_proseFor]
    cases d.member? method.name with
    | none => simp
    | some m => cases hfields : m.hasFields <;> simp [hfields, ProseTable.ofWrites_singleton]
  writes_overwrite d table := by
    simp [methodWrites, TypeDoc.member?_overwrite, Option.any_map]
  told_overwrite d table := by
    simp only [documentMethod, TypeDoc.changeMember?_proseFor, TypeDoc.member?_overwrite]
    cases d.member? method.name with
    | none => simp
    | some m => cases hfields : m.hasFields <;> simp [hfields]

theorem overwrites_documentGroup (catalog : Catalog) (group : EventGroup) :
    Overwrites (documentGroup catalog group) (groupWrites catalog group) := by
  unfold documentGroup groupWrites
  cases catalog.lookup? group.delegateType with
  | none => exact { Overwrites.idle with told_overwrite := fun _ _ => ⟨rfl, rfl⟩ }
  | some delegate =>
    exact Overwrites.idle.foldl fun method _ => overwrites_documentMethod group method

/-! ## The whole merge -/

theorem overwrites_perform (o : MergeOptions) (source : Option FragmentSource) (catalog : Catalog)
    (t : ApiType) (task : MergeTask) :
    Overwrites (fun d => task.perform o source catalog t d)
      (fun d => task.writes o source catalog t d) := by
  cases task with
  | field member symbol => exact o.overwrites_mergeField source t member symbol
  | group group => exact overwrites_documentGroup catalog group

theorem overwrites_mergeType (o : MergeOptions) (source : Option FragmentSource)
    (catalog : Catalog) (t : ApiType) (binding : EventBinding) :
    Overwrites (mergeType o source catalog t binding) (mergeWrites o source catalog t binding) := by
  have hwrites : mergeWrites o source catalog t binding = fun d =>
      [] ++ (mergeTasks t binding).flatMap fun task => task.writes o source catalog t d := by
    funext d
    simp [mergeWrites, mergeTasks, MergeTask.writes, List.flatMap_map]
  rw [hwrites]
  exact Overwrites.idle.foldl fun task _ => overwrites_perform o source catalog t task

/-- To merge again what a merge has left changes nothing, and tells the same. -/
theorem mergeType_again (o : MergeOptions) (source : Option FragmentSource) (catalog : Catalog)
    (t : ApiType) (binding : EventBinding) (d : TypeDoc) :
    mergeType o source catalog t binding (mergeType o source catalog t binding d).doc =
      mergeType o source catalog t binding d :=
  (overwrites_mergeType o source catalog t binding).again d

end ApiDocs
