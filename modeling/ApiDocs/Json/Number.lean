import ApiDocs.Json.Reader

/-!
# Numbers in JSON texts

A number without a fraction and an exponent is an integer if it fits into 64 bits. Any other is a
double: as many leading digits as fit into 64 bits are taken as an integer, which is then scaled
by a power of ten. A number that is too large for a double is out of range.
-/

namespace ApiDocs.Json

open Reader

/-- The parts of a number as it is written. -/
structure Numeral where
  negative : Bool
  whole : List Char
  fraction : Option (List Char) := none
  exponent : Option (Bool × List Char) := none

/-! ## Reading -/

/-- The fault of a number that lacks a digit: the text may have ended. -/
def lacksDigit (next : Option Char) : Fault :=
  if next.isNone then .endInValue else .invalidNumber

/-- Reads the digits of a whole part, behind the sign. No zero stands before other digits. -/
def wholeDigits : Reader (List Char) := do
  let digits ← takeWhile Char.isDigit
  match digits with
  | [] => fail (lacksDigit (← peek?))
  | '0' :: _ :: _ => fail .invalidNumber
  | _ => return digits

/-- Reads the digits of a part that has to have some. -/
def someDigits : Reader (List Char) := do
  let digits ← takeWhile Char.isDigit
  if digits.isEmpty then fail (lacksDigit (← peek?)) else return digits

/-- Reads a fraction, if there is one. -/
def fractionDigits? : Reader (Option (List Char)) := do
  if (← peek?) = some '.' then
    let _ ← next?
    return some (← someDigits)
  else return none

/-- Reads an exponent, if there is one: whether it is negative, and its digits. -/
def exponentDigits? : Reader (Option (Bool × List Char)) := do
  match ← peek? with
  | some 'e' | some 'E' =>
    let _ ← next?
    match ← peek? with
    | some '-' =>
      let _ ← next?
      return some (true, ← someDigits)
    | some '+' =>
      let _ ← next?
      return some (false, ← someDigits)
    | _ => return some (false, ← someDigits)
  | _ => return none

/-- Reads a number, whose sign is known. -/
def numeral (negative : Bool) : Reader Numeral := do
  let whole ← wholeDigits
  let fraction ← fractionDigits?
  let exponent ← exponentDigits?
  return { negative, whole, fraction, exponent }

/-! ## Values -/

/-- The value of a digit. -/
def digitValue (c : Char) : Nat := c.toNat - '0'.toNat

/-- Appends digits to a number as long as the result stays below `UInt64.size`, and counts them. -/
def appendDigits (number : Nat) : List Char → Nat × Nat
  | [] => (number, 0)
  | c :: rest =>
    let larger := number * 10 + digitValue c
    if larger < UInt64.size then
      let (last, count) := appendDigits larger rest
      (last, count + 1)
    else (number, 0)

/-- The power of ten, which is a double for exponents up to 308. -/
def powerOfTen (exponent : Nat) : Float := Float.ofScientific 1 false exponent

/-- Divides a double by a power of ten, in steps that are powers of ten themselves. -/
def scaleDown (x : Float) (places : Nat) : Float :=
  if places ≤ 308 then x / powerOfTen places
  else if x == 0 then x
  else scaleDown (x / powerOfTen 308) (places - 308)
termination_by places

/-- Multiplies a double by a power of ten. There is no result beyond the range of doubles. -/
def scaleUp? (x : Float) (places : Nat) : Option Float :=
  if places ≤ 308 then
    let y := x * powerOfTen places
    if y.isInf then none else some y
  else if x == 0 then some x
  else none

/-- The largest exponent that is looked at. -/
def maxExponent : Nat := 2147483647

/-- The number that digits make in base ten. -/
def decimalValue (digits : List Char) : Nat :=
  digits.foldl (fun n c => 10 * n + digitValue c) 0

/-- The double with this many units, without its sign. -/
def scaled? (units : Nat) (places : Int) (exponent : Option (Bool × List Char)) : Option Float :=
  let x := units.toUInt64.toFloat
  let scale (places : Int) : Option Float :=
    if 0 ≤ places then scaleUp? x places.toNat else some (scaleDown x (-places).toNat)
  match exponent with
  | none => scale places
  | some (negative, digits) =>
    let size := decimalValue digits
    if size > maxExponent then
      if units ≠ 0 ∧ !negative then none else some 0
    else scale (if negative then places - size else places + size)

/-- The value of a number. -/
def Numeral.value (n : Numeral) : Except Fault Found :=
  let (whole, count) := appendDigits 0 n.whole
  let dropped := n.whole.length - count
  let real (x : Float) : Found := .real (.ofFloat (if n.negative then -x else x))
  if n.fraction.isNone ∧ n.exponent.isNone ∧ dropped = 0 then
    if !n.negative then .ok (.integer whole)
    else if whole = 0 ∨ 2 * whole > UInt64.size then .ok (real whole.toUInt64.toFloat)
    else .ok (.integer (-whole))
  else
    let (units, count) := appendDigits whole (n.fraction.getD [])
    match scaled? units ((dropped : Int) - count) n.exponent with
    | some x => .ok (real x)
    | none => .error .numberOutOfRange

/-- Reads the value of a number, whose sign is known. -/
def number (negative : Bool) : Reader Found := do
  match (← numeral negative).value with
  | .ok found => return found
  | .error fault => fail fault

/-! ## Passing over numbers -/

/-- Passes over digits that have to be there. -/
def skipDigits : Reader Unit := do
  if (← takeWhile Char.isDigit).isEmpty then fail .invalidNumber else return ()

/-- Passes over a number behind its sign. The end of the text is a fault of the number here. -/
def skipNumber : Reader Unit := do
  match ← takeWhile Char.isDigit with
  | [] => fail .invalidNumber
  | '0' :: _ :: _ => fail .invalidNumber
  | _ =>
    if (← peek?) = some '.' then
      let _ ← next?
      skipDigits
    if (← peek?) = some 'e' ∨ (← peek?) = some 'E' then
      let _ ← next?
      if (← peek?) = some '-' ∨ (← peek?) = some '+' then
        let _ ← next?
      skipDigits

end ApiDocs.Json
