import ApiDocs.Text.Blank
import ApiDocs.Json.Fault

/-!
# Readers of JSON texts

A reader takes a value off the front of a text, or finds a fault. It tells how many characters it
took, so a reader that takes some can be repeated until nothing is left.
-/

namespace ApiDocs.Json

/-- A value that was read, the number of characters that it takes, and the input behind it. -/
structure Taken (α : Type) (input : List Char) where
  value : α
  length : Nat
  rest : List Char
  length_add_rest : length + rest.length = input.length

/-- A reader of values. -/
structure Reader (α : Type) where
  run : (input : List Char) → Except Fault (Taken α input)

namespace Reader

instance : Monad Reader where
  pure a := ⟨fun input => .ok ⟨a, 0, input, Nat.zero_add _⟩⟩
  bind r next := ⟨fun input =>
    match r.run input with
    | .error fault => .error fault
    | .ok first =>
      match (next first.value).run first.rest with
      | .error fault => .error fault
      | .ok second =>
        .ok ⟨second.value, first.length + second.length, second.rest, by
          rw [Nat.add_assoc, second.length_add_rest, first.length_add_rest]⟩⟩

/-- The reader that finds a fault. -/
def fail (fault : Fault) : Reader α := ⟨fun _ => .error fault⟩

/-- The character in front, which is left there. -/
def peek? : Reader (Option Char) :=
  ⟨fun input => .ok ⟨input.head?, 0, input, Nat.zero_add _⟩⟩

/-- Takes off the character in front. -/
def next? : Reader (Option Char) := ⟨fun input =>
  match input with
  | [] => .ok ⟨none, 0, [], rfl⟩
  | c :: rest => .ok ⟨some c, 1, rest, Nat.add_comm ..⟩⟩

/-- Takes off up to `count` characters. -/
def take (count : Nat) : Reader (List Char) := ⟨fun input =>
  .ok ⟨input.take count, (input.take count).length, input.drop count, by
    rw [← List.length_append, List.take_append_drop]⟩⟩

/-- Takes off the characters in front that satisfy `p`. -/
def takeWhile (p : Char → Bool) : Reader (List Char) := ⟨fun input =>
  .ok ⟨input.takeWhile p, (input.takeWhile p).length, input.dropWhile p, by
    rw [← List.length_append, List.takeWhile_append_dropWhile]⟩⟩

/-- The first character that is not white space, which is left in front. -/
def peekToken? : Reader (Option Char) := do
  let _ ← takeWhile Text.isSpace
  peek?

/-- Repeats a step that leads from one state to the next, until it has no next state. A step that
takes nothing off the input is the last one too. -/
def iterate (step : σ → Reader (Option σ)) (state : σ) : Reader σ :=
  ⟨fun input => go input state 0 input (Nat.zero_add _)⟩
where
  go (whole : List Char) (state : σ) (taken : Nat) (input : List Char)
      (h : taken + input.length = whole.length) : Except Fault (Taken σ whole) :=
    match (step state).run input with
    | .error fault => .error fault
    | .ok ⟨none, length, rest, hrest⟩ => .ok ⟨state, taken + length, rest, by omega⟩
    | .ok ⟨some state, length, rest, hrest⟩ =>
      if _progress : 0 < length then go whole state (taken + length) rest (by omega)
      else .ok ⟨state, taken + length, rest, by omega⟩
  termination_by input.length

/-- Reads a whole text; only white space may follow the value. -/
def readAll (r : Reader α) (text : String) : Except Fault α :=
  match (do
    let value ← r
    match ← peekToken? with
    | none => return value
    | some _ => fail .trailingCharacters : Reader α).run text.toList with
  | .ok taken => .ok taken.value
  | .error fault => .error fault

end Reader

end ApiDocs.Json
