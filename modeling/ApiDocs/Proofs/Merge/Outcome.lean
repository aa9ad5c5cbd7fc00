import ApiDocs.Proofs.Merge.Writes

/-!
# What becomes of fields and methods

Each part of a merge ends in one of a few ways, and each way that leaves something undocumented
raises one counter and gives one warning. The accounts of parts add up.
-/

namespace ApiDocs

open Xml

/-- The number of warnings among the notices. -/
def warnings (notices : List Notice) : Nat :=
  notices.countP (·.level = .warn)

@[simp] theorem warnings_nil : warnings [] = 0 := rfl

@[simp] theorem warnings_append (first second : List Notice) :
    warnings (first ++ second) = warnings first + warnings second :=
  List.countP_append

theorem warnings_singleton {notice : Notice} (h : notice.level = .warn) :
    warnings [notice] = 1 := by
  simp [warnings, h]

theorem MergeReport.empty_add (report : MergeReport) : {} + report = report := by
  simp only [add_def, Nat.zero_add]

/-- What a source has for a symbol, and what it tells about looking for it. -/
def FragmentSource.answer (source : Option FragmentSource) (t : ApiType) (symbol : String) :
    List Notice × Option (List Node) :=
  match source with
  | none => ([], none)
  | some source => ((source.fragment t symbol).1, source.contentFor t symbol)

/-! ## Fields -/

namespace MergeOptions

/-- The merge is concerned with a field that has no documentation at all, or that is to be
documented by a fragment. -/
def concerns (o : MergeOptions) (d : TypeDoc) (field : ApiMember × String) : Bool :=
  match d.member? field.1.name with
  | none => true
  | some node => o.mergeExternal && o.isNotification node field.2

/-- What the merge is concerned with does not change while it writes. -/
theorem concerns_overwrite (o : MergeOptions) (d : TypeDoc) (table : ProseTable) :
    o.concerns (d.overwrite table) = o.concerns d := by
  funext field
  rw [concerns, concerns, TypeDoc.member?_overwrite]
  cases d.member? field.1.name with
  | none => rfl
  | some node => simp [isNotification_fill]

theorem concerns_mergeField (o : MergeOptions) (source : Option FragmentSource) (t : ApiType)
    (member : ApiMember) (symbol : String) (d : TypeDoc) :
    o.concerns (o.mergeField source t member symbol d).doc = o.concerns d := by
  rw [(o.overwrites_mergeField source t member symbol).doc_eq, concerns_overwrite]

/-- The ways in which the merge of a field can end, with what it reports and tells. -/
inductive FieldOutcome (o : MergeOptions) (source : Option FragmentSource) (t : ApiType)
    (member : ApiMember) (symbol : String) (d : TypeDoc) : MergeReport → List Notice → Prop
  | missing (hmember : d.member? member.name = none) :
    FieldOutcome o source t member symbol d { staleMembers := 1 }
      [.fieldMissing t.fullName member.name]
  | passed {node : MemberDoc} (hmember : d.member? member.name = some node)
      (hconcern : (o.mergeExternal && o.isNotification node symbol) = false) :
    FieldOutcome o source t member symbol d {} []
  | undocumented {node : MemberDoc} (hmember : d.member? member.name = some node)
      (hconcern : (o.mergeExternal && o.isNotification node symbol) = true)
      (hfields : node.hasFields = false) :
    FieldOutcome o source t member symbol d { staleMembers := 1 }
      [.fieldUndocumented t.fullName member.name]
  | failed {node : MemberDoc} (hmember : d.member? member.name = some node)
      (hconcern : (o.mergeExternal && o.isNotification node symbol) = true)
      (hfields : node.hasFields = true)
      (hanswer : (FragmentSource.answer source t symbol).2 = none) :
    FieldOutcome o source t member symbol d { externalFailures := 1 }
      ((FragmentSource.answer source t symbol).1 ++ [.fragmentMissing t.name symbol])
  | merged {node : MemberDoc} {content : List Node} (hmember : d.member? member.name = some node)
      (hconcern : (o.mergeExternal && o.isNotification node symbol) = true)
      (hfields : node.hasFields = true)
      (hanswer : (FragmentSource.answer source t symbol).2 = some content) :
    FieldOutcome o source t member symbol d { fieldsMerged := 1 }
      ((FragmentSource.answer source t symbol).1 ++
        [.fragmentMerged content.length t.fullName member.name])

theorem fieldOutcome_mergeField (o : MergeOptions) (source : Option FragmentSource) (t : ApiType)
    (member : ApiMember) (symbol : String) (d : TypeDoc) :
    o.FieldOutcome source t member symbol d (o.mergeField source t member symbol d).report
      (o.mergeField source t member symbol d).notices := by
  unfold mergeField
  cases hmember : d.member? member.name with
  | none => exact .missing hmember
  | some node =>
    dsimp only
    split
    · next hpassed =>
      refine .passed hmember ?_
      simpa only [← Bool.not_and, Bool.not_eq_true'] using hpassed
    · next hasked =>
      have hconcern : (o.mergeExternal && o.isNotification node symbol) = true := by
        simpa using hasked
      split
      · next hundocumented => exact .undocumented hmember hconcern (by simpa using hundocumented)
      · next hdocumented =>
        have hfields : node.hasFields = true := by simpa using hdocumented
        cases source with
        | none => exact .failed hmember hconcern hfields rfl
        | some source =>
          dsimp only
          split
          · next hnothing => exact .failed hmember hconcern hfields hnothing
          · next content hcontent => exact .merged hmember hconcern hfields hcontent

end MergeOptions

/-- The account of fields: with `concerned` of them the merge is concerned, `failures` of them have
no fragment, and `others` warnings came from looking for fragments. -/
structure FieldsAccount (concerned failures others : Nat) (report : MergeReport)
    (notices : List Notice) : Prop where
  concerned : report.fieldsMerged + report.externalFailures + report.staleMembers = concerned
  failures : report.externalFailures = failures
  warnings : warnings notices = report.staleMembers + report.externalFailures + others
  eventsDocumented : report.eventsDocumented = 0
  unresolvedDelegates : report.unresolvedDelegates = 0

theorem fieldsAccount_idle : FieldsAccount 0 0 0 {} [] :=
  ⟨rfl, rfl, rfl, rfl, rfl⟩

theorem FieldsAccount.add {concerned failures others concerned' failures' others' : Nat}
    {report report' : MergeReport} {notices notices' : List Notice}
    (h : FieldsAccount concerned failures others report notices)
    (h' : FieldsAccount concerned' failures' others' report' notices') :
    FieldsAccount (concerned + concerned') (failures + failures') (others + others')
      (report + report') (notices ++ notices') := by
  obtain ⟨hconcerned, hfailures, hwarnings, hevents, hunresolved⟩ := h
  obtain ⟨hconcerned', hfailures', hwarnings', hevents', hunresolved'⟩ := h'
  constructor <;> simp only [MergeReport.add_def, warnings_append] <;> omega

/-! ## Methods of delegate types -/

/-- A method that is there with both of its fields is documented. Any other one is stale, and told
in one warning. -/
theorem documentMethod_cases (group : EventGroup) (method : ApiMember) (d : TypeDoc) :
    (∃ notice : Notice, notice.level = .warn ∧ documentMethod group method d =
        { doc := d, report := { staleMembers := 1 }, notices := [notice] }) ∨
      ∃ doc, documentMethod group method d = { doc, report := { eventsDocumented := 1 } } := by
  unfold documentMethod
  split
  · exact .inl ⟨_, rfl, rfl⟩
  · dsimp only
    split
    · exact .inl ⟨_, rfl, rfl⟩
    · exact .inr ⟨_, rfl⟩

/-- The account of event groups: those that are resolved have `methods` methods together, and
`unresolved` groups are not. -/
structure EventsAccount (methods unresolved : Nat) (report : MergeReport)
    (notices : List Notice) : Prop where
  methods : report.eventsDocumented + report.staleMembers = methods
  unresolved : report.unresolvedDelegates = unresolved
  warnings : warnings notices = report.staleMembers + report.unresolvedDelegates
  fieldsMerged : report.fieldsMerged = 0
  externalFailures : report.externalFailures = 0

theorem eventsAccount_idle : EventsAccount 0 0 {} [] :=
  ⟨rfl, rfl, rfl, rfl, rfl⟩

theorem EventsAccount.add {methods unresolved methods' unresolved' : Nat}
    {report report' : MergeReport} {notices notices' : List Notice}
    (h : EventsAccount methods unresolved report notices)
    (h' : EventsAccount methods' unresolved' report' notices') :
    EventsAccount (methods + methods') (unresolved + unresolved') (report + report')
      (notices ++ notices') := by
  obtain ⟨hmethods, hunresolved, hwarnings, hfields, hfailures⟩ := h
  obtain ⟨hmethods', hunresolved', hwarnings', hfields', hfailures'⟩ := h'
  constructor <;> simp only [MergeReport.add_def, warnings_append] <;> omega

theorem eventsAccount_documentMethod (group : EventGroup) (method : ApiMember) (d : TypeDoc) :
    EventsAccount 1 0 (documentMethod group method d).report
      (documentMethod group method d).notices := by
  obtain ⟨notice, hlevel, hstale⟩ | ⟨doc, hdocumented⟩ := documentMethod_cases group method d
  · rw [hstale]
    exact ⟨rfl, rfl, warnings_singleton hlevel, rfl, rfl⟩
  · rw [hdocumented]
    exact ⟨rfl, rfl, rfl, rfl, rfl⟩

/-- Whatever was told before, the methods of a delegate type add their number to it. -/
theorem EventsAccount.documentMethods {methods unresolved : Nat} {m : Merged}
    (h : EventsAccount methods unresolved m.report m.notices) (group : EventGroup)
    (list : List ApiMember) :
    let after := list.foldl (fun m method => m.andThen (documentMethod group method)) m
    EventsAccount (methods + list.length) unresolved after.report after.notices := by
  induction list generalizing methods m with
  | nil => exact h
  | cons method rest ih =>
    have hstep := h.add (eventsAccount_documentMethod group method m.doc)
    have hrest := ih (m := m.andThen (documentMethod group method)) hstep
    simpa only [List.foldl_cons, List.length_cons, Nat.add_assoc, Nat.add_comm 1] using hrest

/-- The methods of the delegate types that the catalog finds for event groups. -/
def resolvedMethods (catalog : Catalog) (groups : List EventGroup) : List ApiMember :=
  (groups.filterMap fun group => catalog.lookup? group.delegateType).flatMap (·.methods)

/-- The catalog does not find the delegate type. -/
def EventGroup.isUnresolved (catalog : Catalog) (group : EventGroup) : Bool :=
  (catalog.lookup? group.delegateType).isNone

theorem eventsAccount_documentGroup (catalog : Catalog) (group : EventGroup) (d : TypeDoc) :
    EventsAccount (resolvedMethods catalog [group]).length
      ([group].countP (·.isUnresolved catalog))
      (documentGroup catalog group d).report (documentGroup catalog group d).notices := by
  cases hlookup : catalog.lookup? group.delegateType with
  | none =>
    rw [documentGroup, hlookup]
    constructor <;> simp [resolvedMethods, EventGroup.isUnresolved, hlookup, warnings, Notice.level]
  | some delegate =>
    have hmethods := EventsAccount.documentMethods (m := { doc := d }) eventsAccount_idle group
      delegate.methods
    rw [documentGroup, hlookup]
    simpa [resolvedMethods, EventGroup.isUnresolved, hlookup] using hmethods

end ApiDocs
