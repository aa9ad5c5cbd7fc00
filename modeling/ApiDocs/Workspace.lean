import ApiDocs.Notice

/-!
# Workspaces

A workspace is what a run acts on: a disk, the notices given so far, and what was printed. It may
keep a journal, a file of the disk to which the notices are appended as they are given; without
one a notice leaves the disk alone.
-/

namespace ApiDocs

/-- A file that receives the notices that its verbosity shows, each behind a time stamp. -/
structure Journal where
  place : Location
  verbosity : Verbosity
  stamp : String
  deriving DecidableEq, Repr

/-- The line that a journal receives for a notice. -/
def Journal.line (j : Journal) (n : Notice) : String :=
  s!"[{j.stamp}] {n.line}\n"

/-- The disk after a journal has received a notice. -/
def Journal.receive (j : Journal) (n : Notice) (d : Disk) : Disk :=
  if j.verbosity.shows n.level then d.append j.place (j.line n).toUTF8 else d

/-- What a run acts on. -/
structure Workspace where
  disk : Disk
  notices : List Notice := []
  printed : List String := []
  journal : Option Journal := none

namespace Workspace

/-- Gives a notice. -/
def note (w : Workspace) (n : Notice) : Workspace :=
  { w with
    notices := w.notices ++ [n]
    disk := match w.journal with
      | none => w.disk
      | some journal => journal.receive n w.disk }

/-- Gives notices in order. -/
def noteAll (w : Workspace) (notices : List Notice) : Workspace :=
  notices.foldl note w

/-- Prints a line. -/
def print (w : Workspace) (line : String) : Workspace :=
  { w with printed := w.printed ++ [line] }

@[simp] theorem notices_note (w : Workspace) (n : Notice) :
    (w.note n).notices = w.notices ++ [n] := rfl

@[simp] theorem printed_note (w : Workspace) (n : Notice) : (w.note n).printed = w.printed := rfl

@[simp] theorem journal_note (w : Workspace) (n : Notice) : (w.note n).journal = w.journal := rfl

theorem disk_note_of_journal_eq_none {w : Workspace} (h : w.journal = none) (n : Notice) :
    (w.note n).disk = w.disk := by
  simp [note, h]

@[simp] theorem notices_noteAll (w : Workspace) (notices : List Notice) :
    (w.noteAll notices).notices = w.notices ++ notices := by
  induction notices generalizing w with
  | nil => simp [noteAll]
  | cons n rest ih =>
    have : w.noteAll (n :: rest) = (w.note n).noteAll rest := rfl
    rw [this, ih]
    simp

@[simp] theorem journal_noteAll (w : Workspace) (notices : List Notice) :
    (w.noteAll notices).journal = w.journal := by
  induction notices generalizing w with
  | nil => rfl
  | cons n rest ih => exact ih (w.note n)

theorem disk_noteAll_of_journal_eq_none {w : Workspace} (h : w.journal = none)
    (notices : List Notice) : (w.noteAll notices).disk = w.disk := by
  induction notices generalizing w with
  | nil => rfl
  | cons n rest ih =>
    have step := ih (w := w.note n) (by simpa using h)
    rwa [disk_note_of_journal_eq_none h n] at step

end Workspace

end ApiDocs
