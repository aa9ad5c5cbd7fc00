import ApiDocs.Disk.Basic
import ApiDocs.Json.Fault
import ApiDocs.Text.Quoted
import ApiDocs.Xml.Reader

/-!
# Failures

What can go wrong outside a single document: the message says what was attempted, and most
failures have a cause that is shown behind it.
-/

namespace ApiDocs

/-- Shown when help is asked for, and when an argument is missing. -/
def usageText : String :=
  "Usage is: document-generated-code [--appledocs] temp.dll path-to-documentation"

/-- What was attempted on the disk. -/
inductive Attempt where
  | readMetadata (path : String)
  | readDocument (path : String)
  | readFragment (path : String)
  | saveDocument (fullName path : String)
  deriving DecidableEq, Repr

def Attempt.message : Attempt → String
  | .readMetadata path => s!"Failed to read metadata source {path}"
  | .readDocument path => s!"Failed to read {path}"
  | .readFragment path => s!"Failed to read fragment {path}"
  | .saveDocument fullName path => s!"Failed to save documentation for {fullName} to {path}"

/-- Why a run, or a part of it, fails. -/
inductive Failure where
  | disk (attempt : Attempt) (cause : Disk.Error)
  | json (cause : Json.Fault)
  | xml (path : String) (cause : Xml.Error)
  | unpairedBinding (fullName : String) (events delegates : Nat)
  | usage
  | layout
  deriving DecidableEq, Repr

namespace Failure

def message : Failure → String
  | .disk attempt _ => "IO error: " ++ attempt.message
  | .json _ => "JSON error: Failed to parse metadata index"
  | .xml path cause => s!"XML parsing error in {Text.quoted path}: {cause.message}"
  | .unpairedBinding fullName events delegates =>
    let counts := s!"lists {events} events but {delegates} delegates"
    s!"Metadata error: binding descriptor of {fullName} {counts}"
  | .usage => usageText
  | .layout =>
    "The directory does not seem to be the root for documentation (missing `en' directory)"

/-- The text of the cause. -/
def cause? : Failure → Option String
  | .disk _ cause => some cause.message
  | .json cause => some cause.message
  | .xml _ cause => some cause.message
  | .unpairedBinding .. | .usage | .layout => none

/-- The message, with its cause behind it. -/
def chain (f : Failure) : String :=
  ": ".intercalate (f.message :: f.cause?.toList)

end Failure

end ApiDocs
