import ApiDocs.Json.Decode
import ApiDocs.Metadata.Catalog

/-!
# Reading metadata

The metadata source is a JSON text with one entry for each declared type. Only names of types,
names of members and symbols are required.
-/

namespace ApiDocs

open Json

/-- The form of an exported symbol. -/
def symbolForm : Form String where
  name := "ExportDescriptor"
  fields := [.of "symbol_name" string (fun symbol _ => symbol) true]
  defaults := ""

/-- The form of a member. -/
def memberForm : Form ApiMember where
  name := "MemberInfo"
  fields :=
    [.of "name" string (fun name m => { m with name }) true,
      .of "kind" (choice [("property", MemberKind.property), ("method", .method)])
        (fun kind m => { m with kind }),
      .of "return_type" (optional string) (fun returnType m => { m with returnType }),
      .of "export" (optional symbolForm.read) (fun symbol m => { m with symbol })]
  defaults := { name := "" }

/-- The form of the events that a type raises. -/
def bindingForm : Form EventBinding where
  name := "BindingDescriptor"
  fields :=
    [.of "events" (list string) (fun events b => { b with events }),
      .of "delegates" (list string) (fun delegates b => { b with delegates })]
  defaults := {}

/-- The form of a type. -/
def typeForm : Form ApiType where
  name := "TypeInfo"
  fields :=
    [.of "namespace" string (fun nameSpace t => { t with nameSpace }),
      .of "name" string (fun name t => { t with name }) true,
      .of "members" (list memberForm.read) (fun members t => { t with members }),
      .of "binding" (optional bindingForm.read) (fun binding t => { t with binding })]
  defaults := { name := "" }

/-- The form of a metadata source. -/
def sourceForm : Form (List ApiType) where
  name := "MetadataFile"
  fields := [.of "types" (list typeForm.read) (fun types _ => types)]
  defaults := []

namespace Catalog

/-- The catalog in a metadata text. -/
def parse (content : String) : List Notice × Except Failure Catalog :=
  match sourceForm.read.readAll content with
  | .ok types => ofTypes types
  | .error fault => ([], .error (.json fault))

/-- The catalog in a metadata file. -/
def load (d : Disk) (path : String) : List Notice × Except Failure Catalog :=
  match d.readText path with
  | .ok content => parse content
  | .error cause => ([], .error (.disk (.readMetadata path) cause))

end Catalog

end ApiDocs
