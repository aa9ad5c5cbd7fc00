import Std.Time.Format
import ApiDocs.Program

/-!
# The command

The outer layer of the program. It takes from the system what a run may come to look at, lets
`Program.run` do the work on that disk, shows what the run says, and gives back to the system the
places that changed.
-/

namespace ApiDocs.Host

/-- What the system has at a path; code 21 tells that it is a directory. -/
def entryAt? (path : String) : IO (Option Disk.Entry) := do
  match ← (IO.FS.readBinFile path).toBaseIO with
  | .ok content => return some (.file content)
  | .error (.inappropriateType _ code _) => return if code = 21 then some .directory else none
  | .error _ => return none

/-- Why the system refuses, if that is why an attempt has failed. Code 1 tells that the place may not be
changed by anyone, code 30 that the file system is read-only, and code 28 that it is full. -/
def refusalOf? (attempt : IO Unit) : IO (Option Disk.Refusal) := do
  match ← attempt.toBaseIO with
  | .error (.permissionDenied _ code _) =>
    if code = 1 then return some .notPermitted
    return some (if code = 30 then .readOnly else .permissionDenied)
  | .error (.resourceExhausted _ code _) => return if code = 28 then some .noSpace else none
  | _ => return none

/-- Why the system refuses to write to a file, if it does. The file is opened to append to it, which
changes nothing. -/
def refusalToWrite? (path : String) : IO (Option Disk.Refusal) :=
  refusalOf? do
    let _ ← IO.FS.Handle.mk path .append

/-- Why the system refuses to make something where nothing is, if it does. What is made to find out is
removed again. -/
def refusalToMake? (path : String) : IO (Option Disk.Refusal) :=
  refusalOf? do
    IO.FS.createDir path
    IO.FS.removeDir path

/-- Takes over what the system has at each place on the way along a path. If the program makes what is
missing there, that may be refused, too. -/
def follow (makes : Bool) (d : Disk) (path : String) : IO Disk := do
  let .ok () := Disk.checkPath path | return d
  let mut disk := d
  let mut place := d.start path
  let mut here := if Path.isAbsolute path then "/" else ""
  for name in Path.names path do
    here := Path.join here name
    place := if name = "." then place else if name = ".." then place.tail else name :: place
    if (disk.lookup? place).isNone then
      let found ← entryAt? here
      if let some entry := found then
        disk := disk.put place entry
      let refusal ← match found with
        | some .directory => pure none
        | some (.file _) => refusalToWrite? here
        | none => if makes then refusalToMake? here else pure none
      if let some why := refusal then
        disk := disk.refuse place why
  return disk

/-- The part of the system's disk that a run may come to look at. -/
def disk (args : List String) (environment : String → Option String) : IO Disk := do
  let current := (← IO.currentDir).toString
  let d ← follow false { workingDirectory := (Path.names current).reverse } current
  let .ok (.run c) := Command.ofArgs args environment | return d
  let d ← c.logFile.toList.foldlM (follow true) d
  let d ← [c.metadataPath, c.languageRoot].foldlM (follow false) d
  let (_, .ok catalog) := Catalog.load d c.metadataPath | return d
  (Session.ofConfig c catalog).paths.foldlM (follow false) d

/-- The path from the root to a place. -/
def pathTo (place : Location) : String :=
  "/" ++ "/".intercalate place.reverse

/-- Makes the directories that are new, and writes the files that are new or changed. -/
def giveBack (before after : Disk) : IO Unit := do
  let changes := before.changes after
  for (place, _, new) in changes do
    if let some .directory := new then IO.FS.createDirAll (pathTo place)
  for (place, _, new) in changes do
    if let some (.file content) := new then IO.FS.writeBinFile (pathTo place) content

/-- The present time as it stands in a journal. -/
def stamp : IO String := do
  let now := Std.Time.DateTime.ofTimestampWithZone (← Std.Time.Timestamp.now) .UTC
  return now.format "uuuu-MM-dd HH:mm:ss.SSS"

end ApiDocs.Host

open ApiDocs

/-- Runs the program on the system's disk. -/
def main (args : List String) : IO UInt32 := do
  let given ← Setting.all.filterMapM fun s => do
    return (← IO.getEnv s.name).map (s.name, ·)
  let environment := fun key => given.lookup key
  let before ← Host.disk args environment
  let outcome := Program.run (← Host.stamp) args environment before
  Host.giveBack before outcome.disk
  for line in outcome.printed do IO.println line
  for line in outcome.diagnostics do IO.eprintln line
  return outcome.exitCode.toUInt32
