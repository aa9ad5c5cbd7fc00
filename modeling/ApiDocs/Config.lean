import ApiDocs.Disk.Path
import ApiDocs.Failure
import ApiDocs.Level

/-!
# The command line

Flags may stand anywhere. Of the other arguments the first is the metadata source and the last one
the root of the documentation. Everything else comes from the environment, where an empty value
says as little as none.
-/

namespace ApiDocs

/-- The return type of the fields that name notifications, unless the environment gives one. -/
def defaultNotificationType : String := "MonoMac.Foundation.NSString"

/-- The directory under the root of the documentation that holds its files. -/
def languageDirectory : String := "en"

/-- Everything that a run needs to know. -/
structure Config where
  metadataPath : String
  docsRoot : String
  /-- Fragments of an external documentation set are merged. -/
  mergeExternal : Bool := false
  /-- Only the type with this full name is looked at. -/
  onlyType : Option String := none
  notificationType : String := defaultNotificationType
  /-- The directory of the fragments. -/
  fragmentRoot : String := Path.join docsRoot "appledocs"
  verbosity : Verbosity := .upTo .info
  logFile : Option String := none
  deriving DecidableEq, Repr

namespace Config

/-- The directory that holds a directory for each namespace. -/
def languageRoot (c : Config) : String :=
  Path.join c.docsRoot languageDirectory

/-- The configuration in one line. -/
def describe (c : Config) : String :=
  let optional : Option String → String
    | none => "None"
    | some s => s!"Some({Text.quoted s})"
  let fields : List (String × String) :=
    [("metadata_path", Text.quoted c.metadataPath),
      ("docs_root", Text.quoted c.docsRoot),
      ("merge_external", toString c.mergeExternal),
      ("only_type", optional c.onlyType),
      ("notification_type", Text.quoted c.notificationType),
      ("appledocs_dir", Text.quoted c.fragmentRoot),
      ("log_level", c.verbosity.title),
      ("log_file", optional c.logFile)]
  let listed := ", ".intercalate (fields.map fun (key, value) => key ++ ": " ++ value)
  "RunConfig \x7b " ++ listed ++ " \x7d"

end Config

/-- The arguments that were read so far. -/
structure Arguments where
  mergeExternal : Bool := false
  metadataPath : Option String := none
  docsRoot : Option String := none
  deriving DecidableEq, Repr

namespace Arguments

/-- Reads arguments from the left. There is no result if one of them asks for help. -/
def read? (before : Arguments) : List String → Option Arguments
  | [] => some before
  | arg :: rest =>
    if arg = "-h" ∨ arg = "--help" then none
    else if arg = "--appledocs" then { before with mergeExternal := true }.read? rest
    else if before.metadataPath.isNone then { before with metadataPath := some arg }.read? rest
    else { before with docsRoot := some arg }.read? rest

end Arguments

/-- The environment variables that configure a run. -/
inductive Setting where
  | onlyType
  | notificationType
  | fragmentRoot
  | verbosity
  | logFile
  deriving DecidableEq, Repr

namespace Setting

def all : List Setting := [.onlyType, .notificationType, .fragmentRoot, .verbosity, .logFile]

/-- The name of the variable. -/
def name : Setting → String
  | .onlyType => "DOCFIXER"
  | .notificationType => "DOCFIXER_NOTIFICATION_TYPE"
  | .fragmentRoot => "DOCFIXER_APPLEDOCS_DIR"
  | .verbosity => "DOCFIXER_LOG"
  | .logFile => "DOCFIXER_LOG_FILE"

theorem mem_all (s : Setting) : s ∈ all := by
  cases s <;> simp [all]

end Setting

/-- What the command line asks for. -/
inductive Command where
  | help
  | run (config : Config)
  deriving DecidableEq, Repr

/-- The command in these arguments. `environment` looks up variables. -/
def Command.ofArgs (args : List String) (environment : String → Option String) :
    Except Failure Command :=
  let setting (s : Setting) := (environment s.name).filter (· ≠ "")
  match ({} : Arguments).read? args with
  | none => .ok .help
  | some { mergeExternal, metadataPath := some metadataPath, docsRoot := some docsRoot } =>
    .ok (.run
      { metadataPath, docsRoot, mergeExternal
        onlyType := setting .onlyType
        notificationType :=
          (setting .notificationType).getD defaultNotificationType
        fragmentRoot :=
          (setting .fragmentRoot).getD (Path.join docsRoot "appledocs")
        verbosity := .ofName (setting .verbosity)
        logFile := setting .logFile })
  | some _ => .error .usage

/-- The root of the documentation has a directory for the language. -/
def checkLayout (d : Disk) (docsRoot : String) : Except Failure Unit :=
  if d.isDirectory (Path.join docsRoot languageDirectory) then .ok () else .error .layout

end ApiDocs
