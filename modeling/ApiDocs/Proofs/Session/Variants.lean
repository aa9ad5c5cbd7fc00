import ApiDocs.Proofs.Disk.SameShape
import ApiDocs.Proofs.Merge.SettledDoc
import ApiDocs.Session

/-!
# Merging variants of one document

Two variants of a document differ in the prose of members only. A part of a merge does the same to
both, as long as the fragments that it asks for are the same: which ones it asks for, and whether it
asks at all, does not depend on prose.
-/

namespace ApiDocs

open Xml

namespace TypeDoc

/-- The documents are overwritten forms of one document. -/
def Variants (d d' : TypeDoc) : Prop :=
  ∃ (base : TypeDoc) (table table' : ProseTable), d = base.overwrite table ∧
    d' = base.overwrite table'

theorem variants_overwrite (d : TypeDoc) (table : ProseTable) : Variants d (d.overwrite table) :=
  ⟨d, .empty, table, d.overwrite_empty.symm, rfl⟩

theorem variants_refl (d : TypeDoc) : Variants d d :=
  ⟨d, .empty, .empty, d.overwrite_empty.symm, d.overwrite_empty.symm⟩

theorem Variants.overwrite {d d' : TypeDoc} (h : Variants d d') (table table' : ProseTable) :
    Variants (d.overwrite table) (d'.overwrite table') := by
  obtain ⟨base, first, second, rfl, rfl⟩ := h
  exact ⟨base, _, _, overwrite_overwrite _ _ _, overwrite_overwrite _ _ _⟩

end TypeDoc

namespace Overwrites

variable {part : TypeDoc → Merged} {writes : TypeDoc → List (String × MemberProse)} {d d' : TypeDoc}

theorem writes_eq (hpart : Overwrites part writes) (h : TypeDoc.Variants d d') :
    writes d' = writes d := by
  obtain ⟨base, table, table', rfl, rfl⟩ := h
  rw [hpart.writes_overwrite, hpart.writes_overwrite]

theorem report_eq (hpart : Overwrites part writes) (h : TypeDoc.Variants d d') :
    (part d').report = (part d).report := by
  obtain ⟨base, table, table', rfl, rfl⟩ := h
  rw [(hpart.told_overwrite base table).1, (hpart.told_overwrite base table').1]

end Overwrites

/-! ## The fragments that are asked for -/

/-- The symbol whose fragment a part of the work asks for, if it asks for one. -/
def MergeTask.symbol? (o : MergeOptions) (d : TypeDoc) : MergeTask → Option String
  | .field member symbol =>
    (d.member? member.name).bind fun field =>
      if o.mergeExternal && field.hasFields && o.isNotification field symbol then some symbol
      else none
  | .group _ => none

theorem MergeTask.symbol?_overwrite (o : MergeOptions) (d : TypeDoc) (table : ProseTable)
    (task : MergeTask) : task.symbol? o (d.overwrite table) = task.symbol? o d := by
  cases task with
  | field member symbol =>
    rw [symbol?, symbol?, TypeDoc.member?_overwrite]
    cases d.member? member.name with
    | none => rfl
    | some field =>
      simp [MergeOptions.isNotification_fill]
  | group group => rfl

theorem MergeTask.symbol?_eq_of_variants {d d' : TypeDoc} (h : TypeDoc.Variants d d')
    (o : MergeOptions) (task : MergeTask) : task.symbol? o d' = task.symbol? o d := by
  obtain ⟨base, table, table', rfl, rfl⟩ := h
  rw [symbol?_overwrite, symbol?_overwrite]

def Session.fragmentPath? (s : Session) (t : ApiType) (symbol : String) : Option String :=
  s.library.bind (·.path? t symbol)

namespace FragmentLibrary

/-- A fragment is the same on two disks that hold the same in its file. -/
theorem fragment_eq {d d' : Disk} {l : FragmentLibrary} {t : ApiType} {symbol : String}
    (hshape : Disk.SameShape d d') (hfind : ∀ path ∈ l.path? t symbol, d.isFile path = true →
      d'.find path = d.find path) : l.fragment d' t symbol = l.fragment d t symbol := by
  rw [fragment, fragment, load, load]
  cases hpath : l.path? t symbol with
  | none => rfl
  | some path =>
    simp only [hshape.isFile_eq]
    cases hfile : d.isFile path with
    | false => rfl
    | true =>
      have hread : read d' path = read d path := by
        simp only [read, Disk.readText, Disk.read, hfind path hpath hfile]
      simp only [hread]

theorem read_of_fragment {d : Disk} {l : FragmentLibrary} {t : ApiType} {symbol : String}
    {e : Element} (h : (l.fragment d t symbol).2 = some e) :
    ∃ path ∈ l.path? t symbol, d.isFile path = true ∧ read d path = .ok e := by
  rw [fragment, load] at h
  cases hpath : l.path? t symbol with
  | none => simp [hpath] at h
  | some path =>
    simp only [hpath] at h
    cases hfile : d.isFile path with
    | false => simp [hfile] at h
    | true =>
      refine ⟨path, rfl, hfile, ?_⟩
      cases hread : read d path with
      | error cause => simp [hfile, hread, Except.map] at h
      | ok found => simpa [hfile, hread, Except.map] using h

end FragmentLibrary

namespace Session

variable {s : Session} {d d' : Disk} {t : ApiType} {doc : TypeDoc}

/-- The work is the same with two disks that hold the same in the file it asks for. -/
theorem perform_eq (hshape : Disk.SameShape d d') {task : MergeTask}
    (hfind : ∀ symbol ∈ task.symbol? s.options doc, ∀ path ∈ s.fragmentPath? t symbol,
      d.isFile path = true → d'.find path = d.find path) :
    task.perform s.options (s.library.map (·.source d')) s.catalog t doc =
      task.perform s.options (s.library.map (·.source d)) s.catalog t doc := by
  cases task with
  | group group => rfl
  | field member symbol =>
    simp only [MergeTask.perform, MergeOptions.mergeField]
    simp only [MergeTask.symbol?] at hfind
    cases hmember : doc.member? member.name with
    | none => rfl
    | some field =>
      simp only [hmember, Option.bind_some] at hfind
      dsimp only
      cases hexternal : s.options.mergeExternal with
      | false => rfl
      | true =>
        cases hnotification : s.options.isNotification field symbol with
        | false => rfl
        | true =>
          cases hfields : field.hasFields with
          | false => rfl
          | true =>
            cases hlibrary : s.library with
            | none => rfl
            | some l =>
              have hfragment : l.fragment d' t symbol = l.fragment d t symbol := by
                refine FragmentLibrary.fragment_eq hshape fun path hpath => ?_
                refine hfind symbol ?_ path ?_
                · simp [hexternal, hnotification, hfields]
                · simpa [fragmentPath?, hlibrary] using hpath
              simp only [Option.map_some, FragmentLibrary.source, hfragment]

/-- What a part of the work writes is settled if the names in the fragment it asks for are clean. -/
theorem isSettled_writes {task : MergeTask}
    (hclean : ∀ symbol ∈ task.symbol? s.options doc, ∀ path ∈ s.fragmentPath? t symbol,
      d.isFile path = true → ∀ e, FragmentLibrary.read d path = .ok e →
        e.toNode.all Node.hasCleanNames = true) :
    ∀ write ∈ task.writes s.options (s.library.map (·.source d)) s.catalog t doc,
      write.2.IsSettled := by
  intro write hwrite
  cases task with
  | group group => exact isSettled_groupWrites write hwrite
  | field member symbol =>
    simp only [MergeTask.writes, MergeOptions.fieldWrites] at hwrite
    simp only [MergeTask.symbol?] at hclean
    obtain ⟨prose, hprose, rfl⟩ := List.mem_map.1 hwrite
    obtain ⟨field, hmember, hprose⟩ := Option.bind_eq_some_iff.1 (Option.mem_toList.1 hprose)
    simp only [hmember, Option.bind_some] at hclean
    unfold MergeOptions.fieldProse? at hprose
    split at hprose
    · next hasked =>
      obtain ⟨content, hcontent, rfl⟩ := Option.map_eq_some_iff.1 hprose
      obtain ⟨source, hsource, hcontent⟩ := Option.bind_eq_some_iff.1 hcontent
      obtain ⟨l, hlibrary, rfl⟩ := Option.map_eq_some_iff.1 hsource
      obtain ⟨e, hfragment, rfl⟩ := Option.map_eq_some_iff.1 hcontent
      obtain ⟨path, hpath, hfile, hread⟩ := FragmentLibrary.read_of_fragment hfragment
      have hnames := hclean symbol (by simp [hasked]) path
        (by simpa [fragmentPath?, hlibrary] using hpath) hfile e hread
      have hsettled := FragmentLibrary.areSettled_content
        (FragmentLibrary.isSettled_of_read hread hnames)
      have hnodes := hsettled
      rw [← List.take_append_drop summaryNodes (FragmentLibrary.content e)] at hnodes
      obtain ⟨hsummary, hremarks⟩ := Node.areSettled_of_append hnodes
      simp only [FragmentLibrary.source, Node.joinTexts_of_areSettled hsettled]
      exact ⟨hsummary, hremarks⟩
    · cases hprose

end Session

end ApiDocs
