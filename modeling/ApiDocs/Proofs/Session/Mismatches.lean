import ApiDocs.Proofs.Merge.Counting
import ApiDocs.Proofs.Merge.Outcome
import ApiDocs.Proofs.Session.Variants

/-!
# The balance of a merge

Whatever a merge finds out of step with the documentation is counted once and told in one warning.
A merge is seen here as parts that are done in order, each with the source of fragments as the
notices before it have left it: a session may keep its journal where the next fragment is read.
-/

namespace ApiDocs

open Xml

section Parts

variable (o : MergeOptions) (source : List Notice → Option FragmentSource) (catalog : Catalog)
  (t : ApiType)

/-- Does parts of the work in order, the first of them after `told` has been told. -/
def performAll : List Notice → List MergeTask → TypeDoc → Merged
  | _, [], d => { doc := d }
  | told, task :: rest, d =>
    let m := task.perform o (source told) catalog t d
    m.andThen fun d => performAll (told ++ m.notices) rest d

/-- The symbols that fragments are asked for, each with what had been told by then. -/
def lookups : List Notice → List MergeTask → TypeDoc → List (List Notice × String)
  | _, [], _ => []
  | told, task :: rest, d =>
    let m := task.perform o (source told) catalog t d
    (task.symbol? o d).toList.map (told, ·) ++ lookups (told ++ m.notices) rest m.doc

/-- What is told about looking for a fragment. -/
def toldAbout (lookup : List Notice × String) : List Notice :=
  (FragmentSource.answer (source lookup.1) t lookup.2).1

/-- There is no fragment. -/
def isUnanswered (lookup : List Notice × String) : Bool :=
  (FragmentSource.answer (source lookup.1) t lookup.2).2.isNone

/-- The pass over the fields of a type. -/
def fieldPass (d : TypeDoc) : Merged :=
  performAll o source catalog t [] (t.exported.map fun (member, symbol) => .field member symbol) d

/-- The pass over the events of a type, which comes after that over its fields. -/
def eventPass (binding : EventBinding) (d : TypeDoc) : Merged :=
  let first := fieldPass o source catalog t d
  performAll o source catalog t first.notices (binding.groups.map .group) first.doc

end Parts

/-- The account that the merge `m` of the documentation `d` gives of its two passes. Besides the
warnings about what was counted there are `others`. -/
structure MergeAccount (o : MergeOptions) (source : List Notice → Option FragmentSource)
    (catalog : Catalog) (t : ApiType) (binding : EventBinding) (d : TypeDoc) (others : Nat)
    (m : Merged) : Prop where
  passes : m.report = (fieldPass o source catalog t d).report +
    (eventPass o source catalog t binding d).report
  warnings : warnings m.notices = m.report.staleMembers + m.report.externalFailures +
    m.report.unresolvedDelegates + others
  methods : m.report.eventsDocumented +
    (eventPass o source catalog t binding d).report.staleMembers =
      (resolvedMethods catalog binding.groups).length
  unresolved : m.report.unresolvedDelegates = binding.groups.countP (·.isUnresolved catalog)
  fields : m.report.fieldsMerged + m.report.externalFailures +
    (fieldPass o source catalog t d).report.staleMembers = t.exported.countP (o.concerns d)
  unchanged : m.report.fieldsMerged = 0 → m.report.eventsDocumented = 0 → m.doc = d

namespace Merged

theorem idle_andThen (d : TypeDoc) (next : TypeDoc → Merged) :
    Merged.andThen { doc := d } next = next d := by
  simp only [andThen, MergeReport.empty_add, List.nil_append]

theorem andThen_idle (m : Merged) : m.andThen (fun d => { doc := d }) = m := by
  simp only [andThen, MergeReport.add_def, Nat.add_zero, List.append_nil]

theorem andThen_assoc (m : Merged) (next last : TypeDoc → Merged) :
    (m.andThen next).andThen last = m.andThen fun d => (next d).andThen last := by
  simp only [andThen, MergeReport.add_def, Nat.add_assoc, List.append_assoc]

end Merged

section Account

variable {o : MergeOptions} {source : List Notice → Option FragmentSource} {catalog : Catalog}
  {t : ApiType} {told : List Notice} {d : TypeDoc}

theorem performAll_append (first second : List MergeTask) :
    performAll o source catalog t told (first ++ second) d =
      (performAll o source catalog t told first d).andThen fun doc =>
        performAll o source catalog t
          (told ++ (performAll o source catalog t told first d).notices) second doc := by
  induction first generalizing told d with
  | nil => simp only [List.nil_append, performAll, Merged.idle_andThen, List.append_nil]
  | cons task rest ih =>
    simp only [List.cons_append, performAll, ih, Merged.andThen_assoc]
    simp only [Merged.andThen, List.append_assoc]

theorem lookups_append_groups (tasks : List MergeTask) (groups : List EventGroup) :
    lookups o source catalog t told (tasks ++ groups.map .group) d =
      lookups o source catalog t told tasks d := by
  induction tasks generalizing told d with
  | nil =>
    induction groups generalizing told d with
    | nil => rfl
    | cons group rest ih => exact ih
  | cons task rest ih => rw [List.cons_append, lookups, lookups, ih]

/-! ## The pass over the fields -/

theorem symbol?_field {member : ApiMember} {node : MemberDoc} (symbol : String)
    (hmember : d.member? member.name = some node) :
    (MergeTask.field member symbol).symbol? o d =
      if (o.mergeExternal && o.isNotification node symbol) = true ∧ node.hasFields = true then
        some symbol
      else none := by
  rw [MergeTask.symbol?, hmember, Option.bind_some]
  simp only [Bool.and_eq_true, and_right_comm]

/-- A field that concerns the merge is counted once, and its fragment is looked up at most once. -/
theorem fieldsAccount_mergeField (o : MergeOptions) (source : List Notice → Option FragmentSource)
    (t : ApiType) (told : List Notice) (member : ApiMember) (symbol : String) (d : TypeDoc) :
    let asked := ((MergeTask.field member symbol).symbol? o d).toList.map (told, ·)
    FieldsAccount ([(member, symbol)].countP (o.concerns d)) (asked.countP (isUnanswered source t))
      (warnings (asked.flatMap (toldAbout source t)))
      (o.mergeField (source told) t member symbol d).report
      (o.mergeField (source told) t member symbol d).notices := by
  generalize hreport : (o.mergeField (source told) t member symbol d).report = report
  generalize hnotices : (o.mergeField (source told) t member symbol d).notices = notices
  have houtcome := o.fieldOutcome_mergeField (source told) t member symbol d
  rw [hreport, hnotices] at houtcome
  cases houtcome with
  | missing hmember =>
    constructor <;> simp [MergeTask.symbol?, MergeOptions.concerns, hmember, warnings, Notice.level]
  | passed hmember hconcern =>
    rw [symbol?_field symbol hmember]
    constructor <;> simp [MergeOptions.concerns, hmember, hconcern, warnings]
  | undocumented hmember hconcern hfields =>
    rw [symbol?_field symbol hmember]
    constructor <;> simp [MergeOptions.concerns, hmember, hconcern, hfields, warnings, Notice.level]
  | failed hmember hconcern hfields hanswer =>
    rw [symbol?_field symbol hmember]
    constructor <;> simp [MergeOptions.concerns, hmember, hconcern, hfields, isUnanswered,
      toldAbout, hanswer, warnings, Notice.level, Nat.add_comm]
  | merged hmember hconcern hfields hanswer =>
    rw [symbol?_field symbol hmember]
    constructor <;> simp [MergeOptions.concerns, hmember, hconcern, hfields, isUnanswered,
      toldAbout, hanswer, warnings, Notice.level]

theorem fieldsAccount_performAll (fields : List (ApiMember × String)) (told : List Notice)
    (d : TypeDoc) :
    let tasks := fields.map fun (member, symbol) => MergeTask.field member symbol
    let asked := lookups o source catalog t told tasks d
    FieldsAccount (fields.countP (o.concerns d)) (asked.countP (isUnanswered source t))
      (warnings (asked.flatMap (toldAbout source t)))
      (performAll o source catalog t told tasks d).report
      (performAll o source catalog t told tasks d).notices := by
  induction fields generalizing told d with
  | nil => exact fieldsAccount_idle
  | cons field rest ih =>
    obtain ⟨member, symbol⟩ := field
    have hstep := fieldsAccount_mergeField o source t told member symbol d
    have hrest := ih (told ++ (o.mergeField (source told) t member symbol d).notices)
      (o.mergeField (source told) t member symbol d).doc
    -- what concerns the merge is the same after the first field
    rw [o.concerns_mergeField] at hrest
    simpa only [List.map_cons, lookups, performAll, MergeTask.perform, Merged.andThen,
      List.countP_append, List.flatMap_append, warnings_append, ← List.countP_append,
      List.singleton_append] using hstep.add hrest

/-! ## The pass over the events -/

theorem eventsAccount_performAll (groups : List EventGroup) (told : List Notice) (d : TypeDoc) :
    let m := performAll o source catalog t told (groups.map .group) d
    EventsAccount (resolvedMethods catalog groups).length
      (groups.countP (·.isUnresolved catalog)) m.report m.notices := by
  induction groups generalizing told d with
  | nil => exact eventsAccount_idle
  | cons group rest ih =>
    have hstep := eventsAccount_documentGroup catalog group d
    have hrest := ih (told ++ (documentGroup catalog group d).notices)
      (documentGroup catalog group d).doc
    have hmethods : resolvedMethods catalog (group :: rest) =
        resolvedMethods catalog [group] ++ resolvedMethods catalog rest := by
      rw [resolvedMethods, ← List.singleton_append, List.filterMap_append, List.flatMap_append]
      rfl
    rw [hmethods, List.length_append, ← List.singleton_append, List.countP_append]
    exact hstep.add hrest

/-! ## Both passes -/

theorem countsChanges_performAll (tasks : List MergeTask) :
    CountsChanges (performAll o source catalog t told tasks) := by
  induction tasks generalizing told with
  | nil => exact countsChanges_idle
  | cons task rest ih =>
    intro d hfields hevents
    simp only [performAll, Merged.andThen, MergeReport.add_def, Nat.add_eq_zero_iff]
      at hfields hevents ⊢
    have hkept := countsChanges_perform o (source told) catalog t task d hfields.1 hevents.1
    exact (ih _ hfields.2 hevents.2).trans hkept

/-- Each part of a merge keeps the balance, so the whole merge does. -/
theorem mergeAccount_performAll (o : MergeOptions) (source : List Notice → Option FragmentSource)
    (catalog : Catalog) (t : ApiType) (binding : EventBinding) (d : TypeDoc) :
    let m := performAll o source catalog t [] (mergeTasks t binding) d
    let asked := lookups o source catalog t [] (mergeTasks t binding) d
    MergeAccount o source catalog t binding d (warnings (asked.flatMap (toldAbout source t))) m ∧
      m.report.externalFailures = asked.countP (isUnanswered source t) := by
  intro m asked
  generalize hfirst : fieldPass o source catalog t d = first
  generalize hsecond : eventPass o source catalog t binding d = second
  have hm : m = ⟨second.doc, first.report + second.report, first.notices ++ second.notices⟩ := by
    rw [← hfirst, ← hsecond]
    exact performAll_append _ (binding.groups.map .group)
  have hfields : FieldsAccount (t.exported.countP (o.concerns d))
      (asked.countP (isUnanswered source t)) (warnings (asked.flatMap (toldAbout source t)))
      first.report first.notices := by
    rw [← hfirst, show asked = _ from lookups_append_groups _ binding.groups]
    exact fieldsAccount_performAll t.exported [] d
  have hevents : EventsAccount (resolvedMethods catalog binding.groups).length
      (binding.groups.countP (·.isUnresolved catalog)) second.report second.notices := by
    rw [← hsecond]
    exact eventsAccount_performAll binding.groups _ _
  have hunchanged : m.report.fieldsMerged = 0 → m.report.eventsDocumented = 0 → m.doc = d :=
    countsChanges_performAll (mergeTasks t binding) d
  obtain ⟨hconcerned, hfailures, hwarnings, hnone, hresolved⟩ := hfields
  obtain ⟨hmethods, hunresolved, hwarnings', hkept, hlooked⟩ := hevents
  refine ⟨⟨by rw [hm, hfirst, hsecond], ?_, ?_, ?_, ?_, hunchanged⟩, ?_⟩ <;>
    simp only [hm, hfirst, hsecond, MergeReport.add_def, warnings_append] <;> omega

end Account

/-! ## A merge with one source -/

/-- The source tells nothing about looking for fragments. -/
def FragmentSource.IsSilent (source : FragmentSource) : Prop :=
  ∀ t symbol, (source.fragment t symbol).1 = []

theorem toldAbout_of_isSilent {source : Option FragmentSource} {t : ApiType}
    (h : ∀ found ∈ source, found.IsSilent) (lookup : List Notice × String) :
    toldAbout (fun _ => source) t lookup = [] := by
  cases source with
  | none => rfl
  | some source => exact h source rfl t lookup.2

theorem foldl_perform (o : MergeOptions) (source : Option FragmentSource) (catalog : Catalog)
    (t : ApiType) (told : List Notice) (tasks : List MergeTask) (m : Merged) :
    tasks.foldl (fun m task => m.andThen fun doc => task.perform o source catalog t doc) m =
      m.andThen (performAll o (fun _ => source) catalog t told tasks) := by
  induction tasks generalizing told m with
  | nil => exact m.andThen_idle.symm
  | cons task rest ih =>
    rw [List.foldl_cons, ih (told ++ (task.perform o source catalog t m.doc).notices),
      Merged.andThen_assoc]
    rfl

theorem mergeType_eq_performAll (o : MergeOptions) (source : Option FragmentSource)
    (catalog : Catalog) (t : ApiType) (binding : EventBinding) (d : TypeDoc) :
    mergeType o source catalog t binding d =
      performAll o (fun _ => source) catalog t [] (mergeTasks t binding) d := by
  rw [mergeType, foldl_perform o source catalog t [], Merged.idle_andThen]

/-! ## A merge with a library of fragments -/

namespace FragmentLibrary

variable (l : FragmentLibrary) (d : Disk) (t : ApiType) (symbol : String)

/-- The file for the symbol is there, and cannot be read as a fragment. -/
def refuses : Bool :=
  (l.path? t symbol).any fun path => d.isFile path && !(read d path).isOk

/-- There is no file for the symbol. -/
def lacks : Bool :=
  (l.path? t symbol).all fun path => !d.isFile path

/-- A library answers, or lacks the file, or refuses it and gives one warning. -/
theorem answer_source_cases :
    (l.refuses d t symbol = true ∧ l.lacks d t symbol = false ∧ ∃ notice : Notice,
        notice.level = .warn ∧ FragmentSource.answer (l.source d) t symbol = ([notice], none)) ∨
      (l.refuses d t symbol = false ∧ l.lacks d t symbol = true ∧
        FragmentSource.answer (l.source d) t symbol = ([], none)) ∨
      (l.refuses d t symbol = false ∧ l.lacks d t symbol = false ∧ ∃ content,
        FragmentSource.answer (l.source d) t symbol = ([], some content)) := by
  simp only [FragmentSource.answer, FragmentSource.contentFor, source, fragment, load, refuses,
    lacks]
  cases l.path? t symbol with
  | none => exact .inr (.inl ⟨rfl, rfl, rfl⟩)
  | some path =>
    cases hfile : d.isFile path with
    | false => simp [hfile]
    | true =>
      cases hread : read d path with
      | error cause => simp [hfile, hread, Except.isOk, Except.toBool, Except.map, Notice.level]
      | ok e => simp [hfile, hread, Except.isOk, Except.toBool, Except.map]

end FragmentLibrary

namespace Session

/-- The source of fragments on the disk as the notices have left it. -/
def sourceAfter (s : Session) (w : Workspace) (told : List Notice) : Option FragmentSource :=
  s.library.map (·.source (w.noteAll told).disk)

/-- The fragments that the merge of a type asks for: the disks that they are looked up on, with the
symbols. -/
def fragmentLookups (s : Session) (w : Workspace) (t : ApiType) (binding : EventBinding)
    (d : TypeDoc) : List (Disk × String) :=
  (lookups s.options (s.sourceAfter w) s.catalog t [] (mergeTasks t binding) d).map
    fun (told, symbol) => ((w.noteAll told).disk, symbol)

/-- What the merge of a type does and tells. -/
def mergedType (s : Session) (w : Workspace) (t : ApiType) (binding : EventBinding) (d : TypeDoc) :
    Merged :=
  performAll s.options (s.sourceAfter w) s.catalog t [] (mergeTasks t binding) d

variable {s : Session} {w : Workspace} {t : ApiType}

theorem foldl_mergeTask (tasks : List MergeTask) (told : List Notice) (d : TypeDoc)
    (report : MergeReport) :
    let m := performAll s.options (s.sourceAfter w) s.catalog t told tasks d
    tasks.foldl (s.mergeTask t) (w.noteAll told, d, report) =
      (w.noteAll (told ++ m.notices), m.doc, report + m.report) := by
  induction tasks generalizing told d report with
  | nil => simp [performAll, MergeReport.add_def]
  | cons task rest ih =>
    have hnoteAll : ∀ notices, (w.noteAll told).noteAll notices = w.noteAll (told ++ notices) :=
      fun notices => List.foldl_append.symm
    have hsource : s.library.map (·.source (w.noteAll told).disk) = s.sourceAfter w told := rfl
    rw [List.foldl_cons, mergeTask]
    simp only [hsource, hnoteAll, ih, performAll, Merged.andThen, MergeReport.add_def,
      Nat.add_assoc, List.append_assoc]

theorem mergeType_eq_mergedType (binding : EventBinding) (d : TypeDoc) :
    s.mergeType w t binding d = (w.noteAll (s.mergedType w t binding d).notices,
      (s.mergedType w t binding d).doc, (s.mergedType w t binding d).report) := by
  have hfold := foldl_mergeTask (s := s) (w := w) (t := t) (mergeTasks t binding) [] d {}
  simp only [List.nil_append, MergeReport.empty_add] at hfold
  exact hfold

/-- A library warns about each file that it refuses, and answers unless it refuses or lacks the
file. -/
theorem count_lookups {l : FragmentLibrary} (hl : s.library = some l)
    (asked : List (List Notice × String)) :
    let looked := asked.map fun (told, symbol) => ((w.noteAll told).disk, symbol)
    let refused := looked.countP fun (disk, symbol) => l.refuses disk t symbol
    warnings (asked.flatMap (toldAbout (s.sourceAfter w) t)) = refused ∧
      asked.countP (isUnanswered (s.sourceAfter w) t) =
        refused + looked.countP fun (disk, symbol) => l.lacks disk t symbol := by
  induction asked with
  | nil => exact ⟨rfl, rfl⟩
  | cons lookup rest ih =>
    obtain ⟨told, symbol⟩ := lookup
    obtain ⟨hwarnings, hunanswered⟩ := ih
    have hsource : s.sourceAfter w told = some (l.source (w.noteAll told).disk) := by
      rw [sourceAfter, hl, Option.map_some]
    simp only [List.flatMap_cons, warnings_append, List.countP_cons, List.map_cons, toldAbout,
      isUnanswered, hsource] at hwarnings hunanswered ⊢
    obtain ⟨hrefuses, hlacks, notice, hlevel, hanswer⟩ | ⟨hrefuses, hlacks, hanswer⟩ |
      ⟨hrefuses, hlacks, content, hanswer⟩ := l.answer_source_cases (w.noteAll told).disk t symbol
    · simp only [hrefuses, hlacks, hanswer, warnings_singleton hlevel, Option.isNone_none, if_true,
        Bool.false_eq_true, if_false]
      omega
    · simp only [hrefuses, hlacks, hanswer, warnings_nil, Option.isNone_none, if_true,
        Bool.false_eq_true, if_false]
      omega
    · simp only [hrefuses, hlacks, hanswer, warnings_nil, Option.isNone_some, Bool.false_eq_true,
        if_false]
      omega

/-- What a merge finds out of step is counted once and told in one warning. A library of fragments
gives one warning more for each file that it refuses, and that is one of the failures. -/
theorem mergeAccount_mergeType (s : Session) (t : ApiType) (binding : EventBinding) (d : TypeDoc) :
    (∀ source : Option FragmentSource, (∀ found ∈ source, found.IsSilent) →
      MergeAccount s.options (fun _ => source) s.catalog t binding d 0
        (ApiDocs.mergeType s.options source s.catalog t binding d)) ∧
      ∀ l w, s.library = some l →
        let m := s.mergedType w t binding d
        let looked := s.fragmentLookups w t binding d
        let refused := looked.countP fun (disk, symbol) => l.refuses disk t symbol
        s.mergeType w t binding d = (w.noteAll m.notices, m.doc, m.report) ∧
          MergeAccount s.options (s.sourceAfter w) s.catalog t binding d refused m ∧
          m.report.externalFailures =
            refused + looked.countP fun (disk, symbol) => l.lacks disk t symbol := by
  refine ⟨fun source hsilent => ?_, fun l w hl => ?_⟩
  · have haccount := (mergeAccount_performAll s.options (fun _ => source) s.catalog t binding d).1
    have hothers : ∀ asked : List (List Notice × String),
        asked.flatMap (toldAbout (fun _ => source) t) = [] := fun asked =>
      List.flatMap_eq_nil_iff.2 fun lookup _ => toldAbout_of_isSilent hsilent lookup
    rwa [← mergeType_eq_performAll, hothers, warnings_nil] at haccount
  · obtain ⟨haccount, hfailures⟩ :=
      mergeAccount_performAll s.options (s.sourceAfter w) s.catalog t binding d
    obtain ⟨hwarnings, hunanswered⟩ := count_lookups (w := w) (t := t) hl
      (lookups s.options (s.sourceAfter w) s.catalog t [] (mergeTasks t binding) d)
    exact ⟨mergeType_eq_mergedType binding d, hwarnings ▸ haccount, hfailures.trans hunanswered⟩

end Session

namespace Sample

def mismatched : Session where
  catalog :=
    { types := #[{
        name := "D"
        members := ["M", "N"].map fun name => { name, kind := .method } }]
      positions := Std.ExtTreeMap.empty.insert "D" 0 }
  store := { root := "/en" }
  options := { mergeExternal := true, notificationType := "" }
  library := some ⟨"/f"⟩

/-- Two of the fragments are there. The journal is kept where one of them is. -/
def mismatchedWorkspace : Workspace where
  disk := (({} : Disk).placeFile "/f/T/Notification.xml" "<p/>".toUTF8).placeFile
    "/f/T/LogNotification.xml" "<p/>".toUTF8
  journal := some ⟨["LogNotification.xml", "T", "f"], .upTo .warn, "now"⟩

def mismatchedType : ApiType where
  name := "T"
  members := ["", "Half<T>", "Log", "Lost", "None"].map fun name =>
    { name, symbol := some (name ++ "Notification") }

def mismatchedBinding : EventBinding where
  events := ["D", "X"]
  delegates := ["P", "Q"]

/-- Of the fields, one is not documented at all, and another one not in both places. -/
def mismatchedDoc : TypeDoc :=
  let member (name : String) (docs : List String) : Node :=
    .element "Member" [⟨"MemberName", name⟩]
      [.element "Docs" [] (docs.map (.element · [] [])),
        .element "ReturnValue" [] [.element "ReturnType" [] []]]
  let whole := ["", "Log", "Lost", "M"].map (member · ["summary", "remarks"])
  ⟨[], ⟨"Type", [], [.element "Members" [] (member "Half<T>" ["summary"] :: whole)]⟩⟩

end Sample

/-- The warning about one field spoils the fragment for the next. -/
theorem Session.mergeAccount_mergeType_mismatched :
    let s := Sample.mismatched
    let w := Sample.mismatchedWorkspace
    let t := Sample.mismatchedType
    let d := Sample.mismatchedDoc
    let m := s.mergedType w t Sample.mismatchedBinding d
    (∀ found ∈ (none : Option FragmentSource), found.IsSilent) ∧ s.library = some ⟨"/f"⟩ ∧
      m.report = ⟨1, 1, 3, 2, 1⟩ ∧ warnings m.notices = 7 ∧
      MergeAccount s.options (fun _ => none) s.catalog t Sample.mismatchedBinding d 0
        (ApiDocs.mergeType s.options none s.catalog t Sample.mismatchedBinding d) ∧
      MergeAccount s.options (s.sourceAfter w) s.catalog t Sample.mismatchedBinding d 1 m := by
  intro s w t d m
  have hsilent : ∀ found ∈ (none : Option FragmentSource), found.IsSilent := by simp
  have hlibrary : s.library = some ⟨"/f"⟩ := rfl
  have hsample : m.report = ⟨1, 1, 3, 2, 1⟩ ∧ warnings m.notices = 7 ∧
      ((s.fragmentLookups w t Sample.mismatchedBinding d).countP fun (disk, symbol) =>
        (⟨"/f"⟩ : FragmentLibrary).refuses disk t symbol) = 1 := by
    decide +kernel
  obtain ⟨hreport, hwarnings, hrefused⟩ := hsample
  obtain ⟨hsource, hsession⟩ := s.mergeAccount_mergeType t Sample.mismatchedBinding d
  have haccount := (hsession ⟨"/f"⟩ w hlibrary).2.1
  rw [hrefused] at haccount
  exact ⟨hsilent, hlibrary, hreport, hwarnings, hsource none hsilent, haccount⟩

end ApiDocs
