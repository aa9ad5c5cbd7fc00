import ApiDocs.Merge

/-!
# What a merge counts

The documentation changes only where a field or a method is counted as documented. Which delegate
types there are is asked of the catalog by full name, and nothing else.
-/

namespace ApiDocs

/-- The part of a merge leaves documentation as it is if it counts nothing as documented. -/
def CountsChanges (part : TypeDoc → Merged) : Prop :=
  ∀ d, (part d).report.fieldsMerged = 0 → (part d).report.eventsDocumented = 0 → (part d).doc = d

namespace CountsChanges

variable {part next : TypeDoc → Merged}

theorem andThen (hpart : CountsChanges part) (hnext : CountsChanges next) :
    CountsChanges fun d => (part d).andThen next := by
  intro d hfields hevents
  simp only [Merged.andThen, MergeReport.add_def, Nat.add_eq_zero_iff] at hfields hevents
  have hkept := hpart d hfields.1 hevents.1
  have hlast := hnext (part d).doc hfields.2 hevents.2
  exact hlast.trans hkept

theorem foldl {α : Type} {step : α → TypeDoc → Merged} {items : List α}
    (hpart : CountsChanges part) (hstep : ∀ item ∈ items, CountsChanges (step item)) :
    CountsChanges fun d => items.foldl (fun m item => m.andThen (step item)) (part d) := by
  -- what was folded so far is a part of its own
  induction items generalizing part with
  | nil => exact hpart
  | cons item rest ih =>
    obtain ⟨hitem, hrest⟩ := List.forall_mem_cons.1 hstep
    exact ih (hpart.andThen hitem) hrest

end CountsChanges

theorem countsChanges_idle : CountsChanges fun d => { doc := d } := fun _ _ _ => rfl

theorem countsChanges_mergeField (o : MergeOptions) (source : Option FragmentSource) (t : ApiType)
    (member : ApiMember) (symbol : String) :
    CountsChanges (o.mergeField source t member symbol) := by
  intro d hfields _
  unfold MergeOptions.mergeField at hfields ⊢
  cases hmember : d.member? member.name with
  | none => rfl
  | some field =>
    simp only [hmember] at hfields ⊢
    split
    · rfl
    · next hasked =>
      rw [if_neg hasked] at hfields
      split
      · rfl
      · next hdocumented =>
        rw [if_neg hdocumented] at hfields
        split
        · rfl
        · next content hcontent =>
          -- a fragment that is there is counted
          simp [hcontent] at hfields

theorem countsChanges_documentMethod (group : EventGroup) (method : ApiMember) :
    CountsChanges (documentMethod group method) := by
  intro d _ hevents
  unfold documentMethod at hevents ⊢
  split
  · rfl
  · next hthere =>
    rw [if_neg hthere] at hevents
    dsimp only at hevents ⊢
    split
    · rfl
    · next doc hchange => simp [hchange] at hevents

theorem countsChanges_documentGroup (catalog : Catalog) (group : EventGroup) :
    CountsChanges (documentGroup catalog group) := by
  unfold documentGroup
  cases catalog.lookup? group.delegateType with
  | none => exact fun _ _ _ => rfl
  | some delegate =>
    exact countsChanges_idle.foldl fun method _ => countsChanges_documentMethod group method

theorem countsChanges_perform (o : MergeOptions) (source : Option FragmentSource)
    (catalog : Catalog) (t : ApiType) (task : MergeTask) :
    CountsChanges fun d => task.perform o source catalog t d := by
  cases task with
  | field member symbol => exact countsChanges_mergeField o source t member symbol
  | group group => exact countsChanges_documentGroup catalog group

theorem countsChanges_mergeType (o : MergeOptions) (source : Option FragmentSource)
    (catalog : Catalog) (t : ApiType) (binding : EventBinding) :
    CountsChanges (mergeType o source catalog t binding) :=
  countsChanges_idle.foldl fun task _ => countsChanges_perform o source catalog t task

/-- Catalogs that find the same types serve a merge alike. -/
theorem mergeType_congr {catalog catalog' : Catalog}
    (h : ∀ name, catalog'.lookup? name = catalog.lookup? name) (o : MergeOptions)
    (source : Option FragmentSource) (t : ApiType) (binding : EventBinding) :
    mergeType o source catalog' t binding = mergeType o source catalog t binding := by
  have htask : ∀ task : MergeTask, (fun doc => task.perform o source catalog' t doc) =
      fun doc => task.perform o source catalog t doc := by
    intro task
    cases task with
    | field member symbol => rfl
    | group group =>
      funext doc
      simp only [MergeTask.perform, documentGroup, h]
  funext doc
  simp only [mergeType, htask]

end ApiDocs
