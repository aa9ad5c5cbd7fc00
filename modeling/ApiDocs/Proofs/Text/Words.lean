import Mathlib.Data.List.TakeWhile
import ApiDocs.Text.Blank

/-!
# Words of a text

A word of a text is a part of it without blanks that has a blank, or an end of the text, at each of
its sides.
-/

namespace ApiDocs.Text

variable {isMark : Char → Bool}

theorem takeWhile_piece {piece back : List Char} (hpiece : ∀ c ∈ piece, isMark c = false)
    (hback : back.head?.all isMark = true) : (piece ++ back).takeWhile (! isMark ·) = piece := by
  induction piece with
  | nil =>
    cases back with
    | nil => rfl
    | cons c rest =>
      have hmark : isMark c = true := by simpa using hback
      simp [hmark]
  | cons c rest ih =>
    obtain ⟨hc, hrest⟩ := List.forall_mem_cons.1 hpiece
    simp [hc, ih hrest]

/-- The first piece ends at the first mark. -/
theorem head?_pieces (isMark : Char → Bool) (cs : List Char) :
    (pieces isMark cs).head? = some (cs.takeWhile (! isMark ·)) := by
  induction cs with
  | nil => rfl
  | cons c rest ih =>
    rw [pieces]
    cases hmark : isMark c with
    | true => simp [hmark]
    | false =>
      rcases hpieces : pieces isMark rest with _ | ⟨piece, others⟩
      · exact absurd hpieces (pieces_ne_nil isMark rest)
      · rw [hpieces, List.head?_cons, Option.some.injEq] at ih
        simp [hmark, ih]

theorem eq_takeWhile_iff {piece cs : List Char} :
    piece = cs.takeWhile (! isMark ·) ↔
      ∃ back, cs = piece ++ back ∧ (∀ c ∈ piece, isMark c = false) ∧ back.head?.all isMark = true := by
  constructor
  · intro h
    refine ⟨cs.dropWhile (! isMark ·), ?_, ?_, ?_⟩
    · rw [h, List.takeWhile_append_dropWhile]
    · intro c hc
      rw [h] at hc
      have hunmarked := List.mem_takeWhile_imp hc
      simpa using hunmarked
    · have hmark := List.head?_dropWhile_not (! isMark ·) cs
      cases hback : (cs.dropWhile (! isMark ·)).head? with
      | none => rfl
      | some c => simpa [hback] using hmark
  · rintro ⟨back, rfl, hpiece, hback⟩
    exact (takeWhile_piece hpiece hback).symm

/-- Every other piece stands behind a mark. -/
theorem mem_tail_pieces_iff {piece cs : List Char} :
    piece ∈ (pieces isMark cs).tail ↔
      ∃ front mark rest, cs = front ++ mark :: rest ∧ isMark mark = true ∧
        piece = rest.takeWhile (! isMark ·) := by
  induction cs with
  | nil => simp [pieces]
  | cons c cs ih =>
    -- a mark in front of all is the one in question, or it is further behind
    have hcons : (∃ front mark rest, c :: cs = front ++ mark :: rest ∧ isMark mark = true ∧
          piece = rest.takeWhile (! isMark ·)) ↔
        (isMark c = true ∧ piece = cs.takeWhile (! isMark ·)) ∨
          piece ∈ (pieces isMark cs).tail := by
      rw [ih]
      constructor
      · rintro ⟨_ | ⟨first, front⟩, mark, rest, hcs, hmark, hpiece⟩
        · obtain ⟨rfl, rfl⟩ := List.cons.inj hcs
          exact .inl ⟨hmark, hpiece⟩
        · obtain ⟨-, rfl⟩ := List.cons.inj hcs
          exact .inr ⟨front, mark, rest, rfl, hmark, hpiece⟩
      · rintro (⟨hmark, hpiece⟩ | ⟨front, mark, rest, rfl, hmark, hpiece⟩)
        · exact ⟨[], c, cs, rfl, hmark, hpiece⟩
        · exact ⟨c :: front, mark, rest, rfl, hmark, hpiece⟩
    rw [hcons, pieces]
    have hhead := head?_pieces isMark cs
    rcases hpieces : pieces isMark cs with _ | ⟨first, others⟩
    · exact absurd hpieces (pieces_ne_nil isMark cs)
    · rw [hpieces, List.head?_cons, Option.some.injEq] at hhead
      cases hmark : isMark c with
      | true => simp [hhead]
      | false => simp

/-- A piece is a part without marks that has a mark, or an end, at each of its sides. -/
theorem mem_pieces_iff {piece cs : List Char} :
    piece ∈ pieces isMark cs ↔
      ∃ front back, cs = front ++ piece ++ back ∧ (∀ c ∈ piece, isMark c = false) ∧
        front.getLast?.all isMark = true ∧ back.head?.all isMark = true := by
  have hsplit : piece ∈ pieces isMark cs ↔
      piece = cs.takeWhile (! isMark ·) ∨ piece ∈ (pieces isMark cs).tail := by
    have hhead := head?_pieces isMark cs
    rcases hpieces : pieces isMark cs with _ | ⟨first, others⟩
    · exact absurd hpieces (pieces_ne_nil isMark cs)
    · rw [hpieces, List.head?_cons, Option.some.injEq] at hhead
      rw [← hhead, List.mem_cons, List.tail_cons]
  rw [hsplit, eq_takeWhile_iff, mem_tail_pieces_iff]
  constructor
  · rintro (⟨back, rfl, hpiece, hback⟩ | ⟨front, mark, rest, rfl, hmark, hpiece⟩)
    · exact ⟨[], back, by simp, hpiece, rfl, hback⟩
    · obtain ⟨back, rfl, hpiece, hback⟩ := eq_takeWhile_iff.1 hpiece
      exact ⟨front ++ [mark], back, by simp, hpiece, by simp [hmark], hback⟩
  · rintro ⟨front, back, rfl, hpiece, hfront, hback⟩
    rcases List.eq_nil_or_concat front with rfl | ⟨before, mark, rfl⟩
    · exact .inl ⟨back, by simp, hpiece, hback⟩
    · right
      refine ⟨before, mark, piece ++ back, by simp, by simpa using hfront, ?_⟩
      exact eq_takeWhile_iff.2 ⟨back, rfl, hpiece, hback⟩

/-- The word stands in the text, between blanks or the ends of the text. -/
def StandsIn (word text : String) : Prop :=
  ∃ front back, text.toList = front ++ word.toList ++ back ∧
    front.getLast?.all isBlank = true ∧ back.head?.all isBlank = true

theorem mem_words_iff {word text : String} (hne : word ≠ "")
    (hword : ∀ c ∈ word.toList, isBlank c = false) : word ∈ words text ↔ StandsIn word text := by
  have hmem : word ∈ words text ↔ word.toList ∈ pieces isBlank text.toList := by
    simp only [words, List.mem_map, List.mem_filter]
    constructor
    · rintro ⟨piece, ⟨hpiece, -⟩, rfl⟩
      rwa [String.toList_ofList]
    · intro hpiece
      exact ⟨word.toList, ⟨hpiece, by simpa using hne⟩, String.ofList_toList⟩
  rw [hmem, mem_pieces_iff, StandsIn]
  constructor
  · rintro ⟨front, back, htext, -, hfront, hback⟩
    exact ⟨front, back, htext, hfront, hback⟩
  · rintro ⟨front, back, htext, hfront, hback⟩
    exact ⟨front, back, htext, hword, hfront, hback⟩

end ApiDocs.Text
