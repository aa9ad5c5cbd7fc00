import ApiDocs.Json.Reader

/-!
# Strings in JSON texts

A string may give characters by escapes. `\u` gives a UTF-16 unit in four hexadecimal digits, and
two of them together a character beyond the first plane. A string that is passed over is read by
the same rules, but how its units pair up is not looked at.
-/

namespace ApiDocs.Json

open Reader

/-- The value of a hexadecimal digit. -/
def hexDigit? (c : Char) : Option Nat :=
  if '0' ≤ c ∧ c ≤ '9' then some (c.toNat - '0'.toNat)
  else if 'a' ≤ c ∧ c ≤ 'f' then some (c.toNat - 'a'.toNat + 10)
  else if 'A' ≤ c ∧ c ≤ 'F' then some (c.toNat - 'A'.toNat + 10)
  else none

/-- The number in base sixteen that the digits make. -/
def hexNumber? (digits : List Char) : Option Nat :=
  digits.foldlM (fun n c => (hexDigit? c).map (16 * n + ·)) 0

/-- Reads the four digits of a unit. A text of fewer than four bytes has ended. -/
def hexUnit : Reader Nat := do
  let digits ← take 4
  if Text.byteCount digits < 4 then fail .endInString
  else
    match hexNumber? digits with
    | some unit => return unit
    | none => fail .invalidEscape

/-- The characters that stand for others behind a backslash. -/
def simpleEscapes : List (Char × Char) :=
  [('"', '"'), ('\\', '\\'), ('/', '/'), ('b', '\x08'), ('f', '\x0c'), ('n', '\n'), ('r', '\r'),
    ('t', '\t')]

/-- The unit is the first of a pair. -/
def isLeading (unit : Nat) : Bool := 0xD800 ≤ unit && unit < 0xDC00

/-- The unit is the second of a pair. -/
def isTrailing (unit : Nat) : Bool := 0xDC00 ≤ unit && unit < 0xE000

/-- Takes off the character that has to begin the second unit of a pair. -/
def expectPairMark (mark : Char) : Reader Unit := do
  match ← next? with
  | none => fail .endInString
  | some c => if c = mark then return () else fail .unfinishedSurrogate

/-- Reads the character that an escape with `\u` stands for. -/
def unicodeEscape : Reader Char := do
  let unit ← hexUnit
  if isTrailing unit then fail .loneSurrogate
  else if isLeading unit then
    expectPairMark '\\'
    expectPairMark 'u'
    let second ← hexUnit
    if isTrailing second then
      return Char.ofNat (0x10000 + (unit - 0xD800) * 0x400 + (second - 0xDC00))
    else fail .loneSurrogate
  else return Char.ofNat unit

/-- Reads the character that an escape stands for, behind its backslash. `unicode` reads the
escapes that give a unit. -/
def escapedChar (unicode : Reader Char) : Reader Char := do
  match ← next? with
  | none => fail .endInString
  | some 'u' => unicode
  | some c =>
    match simpleEscapes.lookup c with
    | some stands => return stands
    | none => fail .invalidEscape

/-- Reads one more character of a string, which is put in front of those before it. There is none
at the closing quote. -/
def stringStep (unicode : Reader Char) (before : List Char) : Reader (Option (List Char)) := do
  match ← peek? with
  | none => fail .endInString
  | some '"' => return none
  | some c =>
    let _ ← next?
    if c = '\\' then return some ((← escapedChar unicode) :: before)
    else if c.toNat < 0x20 then fail .controlCharacter
    else return some (c :: before)

/-- Reads a string behind its opening quote. -/
def stringWith (unicode : Reader Char) : Reader String := do
  let reversed ← iterate (stringStep unicode) []
  let _ ← next?
  return String.ofList reversed.reverse

/-- Reads the content of a string behind its opening quote. -/
def stringContent : Reader String := stringWith unicodeEscape

/-- Passes over a string behind its opening quote. -/
def skipString : Reader Unit := do
  let _ ← stringWith (do let _ ← hexUnit; return ' ')

/-- Reads the rest of a literal name. -/
def literal (name : String) : Reader Unit :=
  name.toList.forM fun expected => do
    match ← next? with
    | none => fail .endInValue
    | some c => if c = expected then return () else fail .expectedLiteral

end ApiDocs.Json
