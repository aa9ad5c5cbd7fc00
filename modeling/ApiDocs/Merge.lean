import ApiDocs.Fragment
import ApiDocs.Metadata.Catalog
import ApiDocs.Prose
import ApiDocs.TypeDoc

/-!
# Merging documentation

The documentation of a bound type is completed in two passes. In the first, fields that name a
notification take their prose from a fragment. In the second, each method of each of its delegate
types is given prose that names the property holding the delegate. Nothing fails here: what
cannot be documented is counted and told.
-/

namespace ApiDocs

/-- What merging is asked to do. -/
structure MergeOptions where
  mergeExternal : Bool := false
  /-- The type of the fields that name notifications. -/
  notificationType : String := defaultNotificationType
  deriving DecidableEq, Repr

/-- The documentation after a part of the merge, with what happened during that part. -/
structure Merged where
  doc : TypeDoc
  report : MergeReport := {}
  notices : List Notice := []
  deriving DecidableEq, Repr

/-- Goes on with the next part of the merge. -/
def Merged.andThen (m : Merged) (next : TypeDoc → Merged) : Merged :=
  let n := next m.doc
  { doc := n.doc, report := m.report + n.report, notices := m.notices ++ n.notices }

/-- The symbols of notifications end like this. -/
def notificationSuffix : String := "Notification"

/-- The number of nodes of a fragment that go into the summary. -/
def summaryNodes : Nat := 2

namespace MergeOptions

/-- The field names a notification. -/
def isNotification (o : MergeOptions) (field : MemberDoc) (symbol : String) : Bool :=
  field.returnType? = some o.notificationType && notificationSuffix.toList.isSuffixOf symbol.toList

/-- Merges a field that wraps a symbol. -/
def mergeField (o : MergeOptions) (source : Option FragmentSource) (t : ApiType)
    (member : ApiMember) (symbol : String) (doc : TypeDoc) : Merged :=
  match doc.member? member.name with
  | none =>
    { doc, report := { staleMembers := 1 }, notices := [.fieldMissing t.fullName member.name] }
  | some field =>
    if !o.mergeExternal || !o.isNotification field symbol then { doc }
    else if !field.hasFields then
      { doc
        report := { staleMembers := 1 }
        notices := [.fieldUndocumented t.fullName member.name] }
    else
      let (notices, fragment) :=
        match source with
        | none => ([], none)
        | some source =>
          let (notices, found) := source.fragment t symbol
          (notices, found.map source.content)
      match fragment with
      | none =>
        { doc
          report := { externalFailures := 1 }
          notices := notices ++ [.fragmentMissing t.name symbol] }
      | some content =>
        { doc := (doc.changeMember? member.name (·.splice? content summaryNodes)).getD doc
          report := { fieldsMerged := 1 }
          notices :=
            notices ++ [.fragmentMerged content.length t.fullName member.name] }

end MergeOptions

/-- The summary and the remarks for a method of a delegate type. -/
def proseFor (method : ApiMember) (property : String) : String × String :=
  if method.hasValue then (Prose.delegateSummary, Prose.delegateRemarks property)
  else (Prose.eventSummary, Prose.eventRemarks property)

/-- Documents a method of a delegate type. -/
def documentMethod (group : EventGroup) (method : ApiMember) (doc : TypeDoc) : Merged :=
  let stale (notice : Notice) : Merged :=
    { doc, report := { staleMembers := 1 }, notices := [notice] }
  if (doc.member? method.name).isNone then stale (.methodMissing group.delegateType method.name)
  else
    let (summary, remarks) := proseFor method group.property
    match doc.changeMember? method.name (·.setTexts? summary remarks) with
    | none => stale (.methodUndocumented group.delegateType method.name)
    | some doc => { doc, report := { eventsDocumented := 1 } }

/-- Documents all methods of a delegate type. -/
def documentGroup (catalog : Catalog) (group : EventGroup) (doc : TypeDoc) : Merged :=
  match catalog.lookup? group.delegateType with
  | none =>
    { doc
      report := { unresolvedDelegates := 1 }
      notices := [.delegateUnknown group.delegateType group.property] }
  | some delegate =>
    delegate.methods.foldl (fun m method => m.andThen (documentMethod group method)) { doc }

/-- A part of the work on one type. -/
inductive MergeTask where
  | field (member : ApiMember) (symbol : String)
  | group (group : EventGroup)
  deriving DecidableEq, Repr

/-- The work on a type: its fields that wrap a symbol, then its delegate types. -/
def mergeTasks (t : ApiType) (binding : EventBinding) : List MergeTask :=
  t.exported.map (fun (member, symbol) => .field member symbol) ++ binding.groups.map .group

/-- Does a part of the work on a type. -/
def MergeTask.perform (o : MergeOptions) (source : Option FragmentSource) (catalog : Catalog)
    (t : ApiType) (doc : TypeDoc) : MergeTask → Merged
  | .field member symbol => o.mergeField source t member symbol doc
  | .group g => documentGroup catalog g doc

/-- Merges the documentation of a bound type. -/
def mergeType (o : MergeOptions) (source : Option FragmentSource) (catalog : Catalog)
    (t : ApiType) (binding : EventBinding) (doc : TypeDoc) : Merged :=
  (mergeTasks t binding).foldl
    (fun m task => m.andThen fun doc => task.perform o source catalog t doc) { doc }

end ApiDocs
