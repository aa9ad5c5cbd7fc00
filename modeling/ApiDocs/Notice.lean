import ApiDocs.Config
import ApiDocs.Report

/-!
# Notices

Everything that a run tells about its work, as a value; the level and the wording of each notice
are decided here.
-/

namespace ApiDocs

/-- A notice about the work of a run. -/
inductive Notice where
  | arguments (config : Config)
  | duplicateType (fullName : String)
  | metadataLoaded (count : Nat) (path : String)
  | metadataRefused (path : String) (cause : Failure)
  | mergingFrom (root : String)
  | documentPending (fullName : String)
  | documentLoaded (fullName path : String)
  | documentRefused (path : String) (cause : Failure)
  | documentSaved (path : String)
  | processing (fullName : String)
  | fieldMissing (fullName member : String)
  | fieldUndocumented (fullName member : String)
  | fragmentRefused (typeName symbol : String) (cause : Failure)
  | fragmentMissing (typeName symbol : String)
  | fragmentMerged (count : Nat) (fullName member : String)
  | delegateUnknown (delegateType property : String)
  | methodMissing (delegateType member : String)
  | methodUndocumented (delegateType member : String)
  | finished (report : RunReport)
  | unfinished (cause : Failure)
  deriving DecidableEq, Repr

namespace Notice

def level : Notice → Level
  | .metadataRefused .. | .unfinished _ => .error
  | .duplicateType _ | .documentPending _ | .documentRefused .. | .fieldMissing ..
  | .fieldUndocumented .. | .fragmentRefused .. | .fragmentMissing .. | .delegateUnknown ..
  | .methodMissing .. | .methodUndocumented .. => .warn
  | .arguments _ | .metadataLoaded .. | .mergingFrom _ | .finished _ => .info
  | .documentLoaded .. | .documentSaved _ | .processing _ | .fragmentMerged .. => .debug

/-- The totals of a run in words. -/
def totals (r : RunReport) : String :=
  s!"Processed {r.typesProcessed} types ({r.typesSkipped} skipped), " ++
    s!"saved {r.documentsSaved} documents: " ++
    s!"{r.merge.eventsDocumented} events documented, {r.merge.fieldsMerged} fields merged, " ++
    s!"{r.merge.staleMembers} stale members, {r.merge.externalFailures} missing external docs"

def message : Notice → String
  | .arguments config => "Command line arguments: " ++ config.describe
  | .duplicateType fullName => s!"Duplicate type {fullName} in metadata, keeping the first one"
  | .metadataLoaded count path => s!"Loaded {count} types from {path}"
  | .metadataRefused path cause => s!"Failed to load metadata source {path}: {cause.chain}"
  | .mergingFrom root => s!"Merging external documentation from {root}"
  | .documentPending fullName => s!"Doc regeneration pending for type: {fullName}"
  | .documentLoaded fullName path => s!"Loaded documentation for {fullName} from {path}"
  | .documentRefused path cause => s!"Failure while loading {path}: {cause.message}"
  | .documentSaved path => s!"Saved {path}"
  | .processing fullName => s!"Processing {fullName}"
  | .fieldMissing fullName member => outdated fullName s!"(member {member})"
  | .fieldUndocumented fullName member =>
    outdated fullName s!"(member {member} has no summary/remarks)"
  | .fragmentRefused typeName symbol cause =>
    s!"Unusable fragment for {typeName} - {symbol}: {cause.message}"
  | .fragmentMissing typeName symbol => s!"Failed to load docs for {typeName} - {symbol}"
  | .fragmentMerged count fullName member =>
    s!"Merging {count} external nodes into {fullName}.{member}"
  | .delegateUnknown delegateType property =>
    s!"Delegate type {delegateType} (property {property}) is not in the metadata, " ++
      "skipping its events"
  | .methodMissing delegateType member =>
    s!"Documentation not up to date for {delegateType}, member {member} was not found"
  | .methodUndocumented delegateType member =>
    s!"Documentation not up to date for {delegateType}, member {member} has no summary/remarks"
  | .finished report => totals report
  | .unfinished cause => s!"Failed to write documentation: {cause.chain}"
where
  outdated (fullName detail : String) : String :=
    s!"{fullName} document is not up-to-date with the latest assembly {detail}"

/-- The line that shows a notice. -/
def line (n : Notice) : String :=
  s!"[{n.level.name}] {n.message}"

end Notice

end ApiDocs
