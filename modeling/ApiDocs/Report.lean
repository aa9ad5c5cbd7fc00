/-!
# Reports

What merging did to one type, and what a run did in all. Reports of several types add up.
-/

namespace ApiDocs

/-- What happened while the documentation of types was merged. -/
structure MergeReport where
  /-- Fields whose documentation came from a fragment. -/
  fieldsMerged : Nat := 0
  /-- Delegate methods that were given prose. -/
  eventsDocumented : Nat := 0
  /-- Members that the documentation does not have, or not with both of its fields. -/
  staleMembers : Nat := 0
  /-- Notification fields without a fragment. -/
  externalFailures : Nat := 0
  /-- Event groups whose delegate type is not declared. -/
  unresolvedDelegates : Nat := 0
  deriving DecidableEq, Repr

namespace MergeReport

instance : Add MergeReport where
  add a b :=
    { fieldsMerged := a.fieldsMerged + b.fieldsMerged
      eventsDocumented := a.eventsDocumented + b.eventsDocumented
      staleMembers := a.staleMembers + b.staleMembers
      externalFailures := a.externalFailures + b.externalFailures
      unresolvedDelegates := a.unresolvedDelegates + b.unresolvedDelegates }

theorem add_def (a b : MergeReport) :
    a + b = ⟨a.fieldsMerged + b.fieldsMerged, a.eventsDocumented + b.eventsDocumented,
      a.staleMembers + b.staleMembers, a.externalFailures + b.externalFailures,
      a.unresolvedDelegates + b.unresolvedDelegates⟩ := rfl

end MergeReport

/-- What a run did. -/
structure RunReport where
  /-- Bound types whose documentation was loaded and merged. -/
  typesProcessed : Nat := 0
  /-- Bound types whose documentation is missing or cannot be read. -/
  typesSkipped : Nat := 0
  documentsSaved : Nat := 0
  merge : MergeReport := {}
  deriving DecidableEq, Repr

end ApiDocs
