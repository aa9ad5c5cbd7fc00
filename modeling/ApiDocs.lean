import ApiDocs.Xml.Printer
import ApiDocs.Xml.Reader
import ApiDocs.Disk.Basic
import ApiDocs.Decimal.Shortest
import ApiDocs.Json.Fault
import ApiDocs.Json.Number
import ApiDocs.Json.Text
import ApiDocs.Json.Decode
import ApiDocs.Config
import ApiDocs.Metadata.Basic
import ApiDocs.Notice
import ApiDocs.Metadata.Catalog
import ApiDocs.Metadata.Reader
import ApiDocs.Workspace
import ApiDocs.Fragment
import ApiDocs.Merge
import ApiDocs.Program
import ApiDocs.Main
import ApiDocs.Proofs.Xml.Continuation
import ApiDocs.Proofs.Xml.WrittenAttribute
import ApiDocs.Proofs.Xml.WrittenTag
import ApiDocs.Proofs.Xml.WrittenTree
import ApiDocs.Proofs.Xml.Relayout
import ApiDocs.Proofs.Xml.RoundTrip
import ApiDocs.Proofs.Merge.Overwrite
import ApiDocs.Proofs.Merge.Writes
import ApiDocs.Proofs.Merge.Splicing
import ApiDocs.Proofs.Xml.ReadEvent
import ApiDocs.Proofs.Xml.ReadTree
import ApiDocs.Proofs.Xml.References
import ApiDocs.Proofs.Xml.Stability
import ApiDocs.Proofs.Xml.Settled
import ApiDocs.Proofs.Merge.SettledDoc
import ApiDocs.Proofs.Disk.SameShape
import ApiDocs.Proofs.Session.Saving
import ApiDocs.Proofs.Session.Variants
import ApiDocs.Proofs.Session.SideBySide
import ApiDocs.Proofs.Session.Rerun
import ApiDocs.Proofs.Xml.Listing
import ApiDocs.Proofs.Xml.ReadPieces
import ApiDocs.Proofs.Session.Serving
import ApiDocs.Proofs.Session.Footprint
import ApiDocs.Proofs.Disk.Writing
import ApiDocs.Proofs.Session.Sequence
import ApiDocs.Proofs.Store.History
import ApiDocs.Proofs.Disk.Writable
import ApiDocs.Proofs.Store.Interruption
import ApiDocs.Proofs.Disk.Names
import ApiDocs.Proofs.Store.Origin
import ApiDocs.Proofs.Session.Confinement
import ApiDocs.Proofs.Xml.Spans
import ApiDocs.Proofs.Metadata.Lookup
import ApiDocs.Proofs.Merge.Counting
import ApiDocs.Proofs.Session.Turns
import ApiDocs.Proofs.Session.Restriction
import ApiDocs.Proofs.Session.Reordering
import ApiDocs.Proofs.Session.Duplicates
import ApiDocs.Proofs.Session.Accounting
import ApiDocs.Proofs.Merge.Outcome
import ApiDocs.Proofs.Session.Mismatches
import ApiDocs.Proofs.Metadata.Entering
import ApiDocs.Proofs.Fragment.Enclosure
import ApiDocs.Proofs.Xml.Faults
import ApiDocs.Proofs.Config.Arguments
import ApiDocs.Proofs.Text.Words
import ApiDocs.Proofs.Xml.DocumentOrder
import ApiDocs.Proofs.Fragment.Section
import ApiDocs.Proofs.Xml.NormalChange
import ApiDocs.Proofs.Merge.Reloading
import ApiDocs.Proofs.Disk.Making
import ApiDocs.Proofs.Session.Journaling
import ApiDocs.Proofs.Program.LogFile
import ApiDocs.Proofs.Program.Stages
import ApiDocs.Proofs.Merge.MemberLookup
import ApiDocs.Proofs.Xml.Appending
