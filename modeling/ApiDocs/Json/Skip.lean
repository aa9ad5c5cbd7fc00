import ApiDocs.Json.Number
import ApiDocs.Json.Text

/-!
# Passing over values

A value that nobody asks for is passed over, however deeply it nests: the lists and objects that
are open are kept as a list of frames. The text has to be well formed, though a comma in front of
a closing bracket is told by what is missing behind it.
-/

namespace ApiDocs.Json

open Reader

/-- A list or an object that is open. -/
inductive Frame where
  | list
  | object
  deriving DecidableEq, Repr

/-- The bracket that closes a frame. -/
def Frame.closing : Frame → Char
  | .list => ']'
  | .object => '\x7d'

/-- The fault of a text that ends inside a frame. -/
def Frame.endFault : Frame → Fault
  | .list => .endInList
  | .object => .endInObject

/-- The fault of an item that is not followed by a comma or the closing bracket. -/
def Frame.behindItem : Frame → Fault
  | .list => .expectedListEnd
  | .object => .expectedObjectEnd

/-- Where passing over a value has come to. -/
inductive SkipState where
  /-- A value follows. -/
  | value (frames : List Frame)
  /-- The first frame has just been opened. -/
  | opened (frame : Frame) (frames : List Frame)
  /-- An item of the first frame has just ended. -/
  | behind (frame : Frame) (frames : List Frame)
  /-- The value has ended. -/
  | finished

/-- A value has ended inside these frames. -/
def SkipState.afterValue : List Frame → SkipState
  | [] => .finished
  | frame :: frames => .behind frame frames

/-- Passes over the value in front, or over its opening bracket. -/
def skipFront (frames : List Frame) : Reader SkipState := do
  match ← peekToken? with
  | none => fail .endInValue
  | some c =>
    if c.isDigit then
      skipNumber
      return .afterValue frames
    else
      let _ ← next?
      match c with
      | 'n' => literal "ull"; return .afterValue frames
      | 't' => literal "rue"; return .afterValue frames
      | 'f' => literal "alse"; return .afterValue frames
      | '"' => skipString; return .afterValue frames
      | '-' => skipNumber; return .afterValue frames
      | '[' => return .opened .list frames
      | '\x7b' => return .opened .object frames
      | _ => fail .expectedValue

/-- Passes over the key of an entry, and the colon behind it. -/
def skipKey : Reader Unit := do
  match ← peekToken? with
  | none => fail .endInObject
  | some '"' =>
    let _ ← next?
    skipString
    match ← peekToken? with
    | none => fail .endInObject
    | some ':' =>
      let _ ← next?
    | some _ => fail .expectedColon
  | some _ => fail .keyNotString

/-- Passes over the front of an item. -/
def skipItem (frame : Frame) (frames : List Frame) : Reader SkipState := do
  if frame = .object then skipKey
  skipFront (frame :: frames)

/-- Passes over the next part of a value. -/
def skipStep : SkipState → Reader (Option SkipState)
  | .finished => return none
  | .value frames => return some (← skipFront frames)
  | .opened frame frames => do
    match ← peekToken? with
    | none => fail frame.endFault
    | some c =>
      if c = frame.closing then
        let _ ← next?
        return some (.afterValue frames)
      else return some (← skipItem frame frames)
  | .behind frame frames => do
    match ← peekToken? with
    | none => fail frame.endFault
    | some c =>
      if c = ',' then
        let _ ← next?
        return some (← skipItem frame frames)
      else if c = frame.closing then
        let _ ← next?
        return some (.afterValue frames)
      else fail frame.behindItem

/-- Passes over a value. -/
def skipValue : Reader Unit := do
  let _ ← iterate skipStep (.value [])

end ApiDocs.Json
