/-!
# Ranges of code points

A class of characters as a table of the code point ranges that it fills. The tables here ascend,
so the first range that does not end before a character decides whether the table covers it.
-/

namespace ApiDocs.Text

/-- A closed range of code points. -/
structure CodeRange where
  first : Nat
  last : Nat
  deriving DecidableEq, Repr

namespace CodeRange

/-- The range holds the code point of `c`. -/
def holds (range : CodeRange) (c : Char) : Bool :=
  range.first ≤ c.toNat && c.toNat ≤ range.last

/-- Every range ends before the later ones begin. -/
def Ascending (table : List CodeRange) : Prop :=
  table.Pairwise fun lower upper => lower.last < upper.first

/-- An ascending table covers the character. -/
def covers : List CodeRange → Char → Bool
  | [], _ => false
  | range :: rest, c =>
    if c.toNat ≤ range.last then range.first ≤ c.toNat else covers rest c

/-- Whether a table covers a character is the same question for each of its ranges. -/
theorem covers_eq_any {table : List CodeRange} (h : Ascending table) (c : Char) :
    covers table c = table.any (·.holds c) := by
  induction table with
  | nil => rfl
  | cons range rest ih =>
    obtain ⟨above, hrest⟩ := List.pairwise_cons.1 h
    by_cases hlast : c.toNat ≤ range.last
    · have none_above : rest.any (·.holds c) = false := by
        rw [List.any_eq_false]
        intro other hother
        have := above other hother
        simp only [holds, Bool.and_eq_true, decide_eq_true_eq]
        omega
      rw [List.any_cons, none_above]
      simp [covers, holds, hlast]
    · simp [covers, holds, hlast, ih hrest]

end CodeRange

end ApiDocs.Text
