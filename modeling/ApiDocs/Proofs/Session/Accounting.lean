import ApiDocs.Proofs.Session.Sequence
import ApiDocs.Proofs.Session.Turns

/-!
# What the runs of a session count

Turns are counted type by type, and what is held is counted name by name. It is held since the first
turn in which it was merged, in whatever run that was, and whether or not that run could save.
-/

namespace ApiDocs

open Finset

/-- The full names of the types that were processed. -/
def processedNames (turns : List Turn) : Finset String :=
  ((turns.filter (·.merged.isSome)).map (·.fullName)).toFinset

theorem mem_processedNames {turns : List Turn} {name : String} :
    name ∈ processedNames turns ↔
      (turns.any fun turn => turn.fullName = name && turn.merged.isSome) = true := by
  simp only [processedNames, List.mem_toFinset, List.mem_map, List.mem_filter, List.any_eq_true,
    Bool.and_eq_true, decide_eq_true_eq]
  exact exists_congr fun turn => by tauto

namespace Session

/-- The turns of a run on each of the disks, in order. -/
def turnsOver (s : Session) : List Disk → List Turn
  | [] => []
  | d :: rest => s.turns { disk := d } ++ turnsOver (s.run { disk := d }).1 rest

/-- The types that are bound and pass the filter, as often as they are declared. -/
def boundTypes (s : Session) : List ApiType :=
  s.catalog.types.toList.filter fun t => t.binding.isSome && s.onlyType.all (· = t.fullName)

/-- The account that a run has given in its report, after runs that took the turns in `past`. Its
own turns are those in `now`. -/
structure Accounts (s : Session) (past now : List Turn) (next : Session) (report : RunReport) :
    Prop where
  looked : now.map (·.fullName) = s.boundTypes.map (·.fullName)
  total : report.typesProcessed + report.typesSkipped = s.boundTypes.length
  processed : report.typesProcessed = now.countP (·.merged.isSome)
  merge : report.merge = (now.filterMap (·.merged)).sum
  saved : report.documentsSaved = (processedNames (past ++ now)).card
  loaded : next.store.loadedTypes.length = report.documentsSaved
  names : next.store.loadedTypes.toFinset = processedNames (past ++ now)
  ascending : next.store.loadedTypes.Pairwise (· < ·)

variable {s : Session} {d : Disk} {w : Workspace} {disks : List Disk}

theorem boundTypes_eq (s : Session) :
    s.boundTypes = s.catalog.types.toList.filter fun t => (s.binding? t).isSome := by
  refine List.filter_congr fun t _ => ?_
  unfold binding?
  cases s.onlyType with
  | none => simp
  | some name => by_cases hname : name = t.fullName <;> simp [hname]

/-! ## Several runs -/

theorem afterRuns_eq (s : Session) (disks : List Disk) :
    s.afterRuns disks = { s with store := (s.afterRuns disks).store } := by
  induction disks generalizing s with
  | nil => rfl
  | cons d rest ih =>
    have hrun : (s.run { disk := d }).1 = { s with store := (s.run { disk := d }).1.store } :=
      (follows_traverse (s := s) (w := { disk := d }) ⟨rfl, rfl⟩).1.session
    rw [afterRuns, List.foldl_cons, ← afterRuns, ih, hrun]

theorem boundTypes_afterRuns (s : Session) (disks : List Disk) :
    (s.afterRuns disks).boundTypes = s.boundTypes := by
  rw [afterRuns_eq]
  rfl

/-- What is held after several runs was held before, or processed in one of them. -/
theorem isLoaded_afterRuns (s : Session) (disks : List Disk) (name : String) :
    (s.afterRuns disks).store.isLoaded name = (s.store.isLoaded name ||
      (s.turnsOver disks).any fun turn => turn.fullName = name && turn.merged.isSome) := by
  induction disks generalizing s with
  | nil => simp [afterRuns, turnsOver]
  | cons d rest ih =>
    have hrun := isLoaded_traverse (s := s) (w := { disk := d }) ⟨rfl, rfl⟩ name
    rw [afterRuns, List.foldl_cons, ← afterRuns, ih, turnsOver, List.any_append, ← Bool.or_assoc,
      ← hrun]
    rfl

/-! ## The account of one run -/

theorem finalReport_eq (hw : w.ActsOn d) :
    (s.traverse w).finalReport =
      { typesProcessed := (s.turns w).countP (·.merged.isSome)
        typesSkipped := (s.turns w).countP (·.merged.isNone)
        documentsSaved := (s.traverse w).session.store.docs.size
        merge := ((s.turns w).filterMap (·.merged)).sum } := by
  have hreport := finalReport_traverse (s := s) hw
  rw [sum_report, RunReport.add_def] at hreport
  have hprocessed := congrArg RunReport.typesProcessed hreport
  have hskipped := congrArg RunReport.typesSkipped hreport
  have hmerge := congrArg RunReport.merge hreport
  simp only [← MergeReport.zero_def, zero_add] at hprocessed hskipped hmerge
  rw [← hprocessed, ← hskipped, ← hmerge]
  rfl

theorem turns_looked (hw : w.ActsOn d) :
    (s.turns w).map (·.fullName) = s.boundTypes.map (·.fullName) := by
  rw [fullNames_turns hw, boundTypes_eq]

theorem turns_total (hw : w.ActsOn d) :
    (s.turns w).countP (·.merged.isSome) + (s.turns w).countP (·.merged.isNone) =
      s.boundTypes.length := by
  have hlength := congrArg List.length (turns_looked (s := s) hw)
  rw [List.length_map, List.length_map] at hlength
  have hskipped : (s.turns w).countP (·.merged.isNone) =
      (s.turns w).countP fun turn => ¬ turn.merged.isSome = true := by
    refine List.countP_congr fun turn _ => ?_
    cases turn.merged <;> simp
  rw [← hlength, hskipped, ← List.length_eq_countP_add_countP]

/-- The account of a run that begins with what `past` has processed. -/
theorem accounts_of_isLoaded (hw : w.ActsOn d) {past : List Turn}
    (hpast : ∀ name, s.store.isLoaded name =
      past.any fun turn => turn.fullName = name && turn.merged.isSome) :
    s.Accounts past (s.turns w) (s.traverse w).session (s.traverse w).finalReport := by
  have hnames : (s.traverse w).session.store.loadedTypes.toFinset =
      processedNames (past ++ s.turns w) := by
    ext name
    rw [List.mem_toFinset, mem_processedNames, List.any_append, ← hpast, ← isLoaded_traverse hw]
    exact Std.ExtTreeMap.mem_keys.trans Std.ExtTreeMap.contains_iff_mem.symm
  have hordered : (s.traverse w).session.store.loadedTypes.Pairwise (compare · · = .lt) :=
    Std.ExtTreeMap.ordered_keys
  have hnodup : (s.traverse w).session.store.loadedTypes.Nodup := Std.ExtTreeMap.nodup_keys
  have hlength : (s.traverse w).session.store.loadedTypes.length =
      (s.traverse w).session.store.docs.size := Std.ExtTreeMap.length_keys
  have hcard : (processedNames (past ++ s.turns w)).card =
      (s.traverse w).session.store.docs.size := by
    rw [← hnames, List.toFinset_card_of_nodup hnodup, hlength]
  rw [finalReport_eq hw]
  exact ⟨turns_looked hw, turns_total hw, rfl, rfl, hcard.symm, hlength, hnames,
    hordered.imp compareOfLessAndEq_eq_lt.1⟩

/-- Whatever happens to the disk between the runs of a session, and whether or not they can save:
what was processed once is not skipped any more, and each run that succeeds gives its account. -/
theorem accounts_of_run (hempty : s.store.docs = ∅) (disks : List Disk) (d : Disk) :
    (∀ turn ∈ s.turnsOver disks, turn.merged.isSome = true →
      ∀ later ∈ (s.afterRuns disks).turns { disk := d }, later.fullName = turn.fullName →
        later.merged.isSome = true) ∧
      ∀ next after report, (s.afterRuns disks).run { disk := d } = (next, after, .ok report) →
        s.Accounts (s.turnsOver disks) ((s.afterRuns disks).turns { disk := d }) next report := by
  have hw : Workspace.ActsOn { disk := d } d := ⟨rfl, rfl⟩
  have hpast : ∀ name, (s.afterRuns disks).store.isLoaded name =
      (s.turnsOver disks).any fun turn => turn.fullName = name && turn.merged.isSome := by
    intro name
    rw [isLoaded_afterRuns, DocStore.isLoaded, hempty]
    simp
  refine ⟨fun turn hturn hmerged later hlater hname => ?_, fun next after report hrun => ?_⟩
  · refine merged_of_isLoaded (follows_start hw) ?_ _ later hlater hname
    refine (hpast turn.fullName).trans (List.any_eq_true.2 ⟨turn, hturn, ?_⟩)
    simp [hmerged]
  · obtain ⟨rfl, rfl, -⟩ := traverse_of_run_eq_ok hrun
    have haccounts := accounts_of_isLoaded hw hpast
    exact
      { haccounts with
        looked := boundTypes_afterRuns s disks ▸ haccounts.looked
        total := boundTypes_afterRuns s disks ▸ haccounts.total }

end Session

namespace Sample

/-- A session over a type that is declared twice, and another one. -/
def ledger : Session :=
  session.withCatalog
    { types := #[{ name := "T", binding := some {} }, { name := "U", binding := some {} },
        { name := "T", binding := some {} }]
      positions := (Std.ExtTreeMap.empty.insert "T" 0).insert "U" 1 }

def emptied : Disk := ({} : Disk).placeDirectory "/en"

/-- The first type can be loaded. Then the other one can, while the first cannot be saved. -/
def ledgerDisks : List Disk :=
  [emptied.placeFile "/en/T.xml" "<Type/>".toUTF8,
    (emptied.placeDirectory "/en/T.xml").placeFile "/en/U.xml" "<Type/>".toUTF8]

end Sample

/-- The second run fails, and still what it has loaded is counted in the third. -/
theorem Session.accounts_of_run_afterFailure :
    ∃ next after report,
      ((Sample.ledger.afterRuns (Sample.ledgerDisks.take 1)).run
        { disk := Sample.ledgerDisks[1] }).2.2.toOption = none ∧
      (Sample.ledger.afterRuns Sample.ledgerDisks).run { disk := Sample.emptied } =
        (next, after, .ok report) ∧
      report = { typesProcessed := 3, documentsSaved := 2 } ∧
      Sample.ledger.Accounts (Sample.ledger.turnsOver Sample.ledgerDisks)
        ((Sample.ledger.afterRuns Sample.ledgerDisks).turns { disk := Sample.emptied }) next
        report := by
  have hsample :
      ((Sample.ledger.afterRuns (Sample.ledgerDisks.take 1)).run
          { disk := Sample.ledgerDisks[1] }).2.2.toOption = none ∧
        ((Sample.ledger.afterRuns Sample.ledgerDisks).run { disk := Sample.emptied }).2.2 =
          .ok { typesProcessed := 3, documentsSaved := 2 } := by
    decide +kernel
  obtain ⟨hfails, hreport⟩ := hsample
  cases hrun : (Sample.ledger.afterRuns Sample.ledgerDisks).run { disk := Sample.emptied } with
  | mk next rest =>
    obtain ⟨after, result⟩ := rest
    rw [hrun] at hreport
    obtain rfl : result = _ := hreport
    obtain ⟨-, haccounts⟩ :=
      Session.accounts_of_run (s := Sample.ledger) rfl Sample.ledgerDisks (Sample.emptied)
    exact ⟨next, after, _, hfails, rfl, rfl, haccounts next after _ hrun⟩

end ApiDocs
