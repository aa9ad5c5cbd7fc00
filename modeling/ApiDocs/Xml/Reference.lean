/-!
# References

The character that a reference such as `&lt;` or `&#65;` stands for. Content and the values of
attributes read references by rules of their own: content allows an upper-case `X`, a sign and
the null character, and the value of an attribute allows none of them but tells more exactly
what is wrong.
-/

namespace ApiDocs.Xml

/-- The entities that need no declaration. -/
def predefinedEntities : List (String × Char) :=
  [("lt", '<'), ("gt", '>'), ("amp", '&'), ("apos", '\''), ("quot", '"')]

/-- The value of a digit; letters stand for ten and more, in either case. -/
def digitValue? (base : Nat) (c : Char) : Option Nat :=
  let value :=
    if '0' ≤ c ∧ c ≤ '9' then c.toNat - '0'.toNat
    else if 'a' ≤ c ∧ c ≤ 'z' then c.toNat - 'a'.toNat + 10
    else if 'A' ≤ c ∧ c ≤ 'Z' then c.toNat - 'A'.toNat + 10
    else base
  if value < base then some value else none

/-- Why characters are no 32-bit numeral. -/
inductive NumeralError where
  | empty
  | invalidDigit
  | tooLarge
  deriving DecidableEq, Repr

/-- Continues to read a 32-bit numeral that has come to `value` so far. -/
def readDigits (base : Nat) (value : Nat) : List Char → Except NumeralError Nat
  | [] => .ok value
  | c :: rest =>
    match digitValue? base c with
    | none => .error .invalidDigit
    | some digit =>
      let next := value * base + digit
      if next < UInt32.size then readDigits base next rest else .error .tooLarge

/-- Reads a 32-bit numeral. Of two faults the first from the left is reported. -/
def readNumeral (base : Nat) (digits : List Char) : Except NumeralError Nat :=
  if digits.isEmpty then .error .empty else readDigits base 0 digits

/-- The character with this code point. -/
def charOfCode? (code : Nat) : Option Char :=
  if code.isValidChar then some (Char.ofNat code) else none

/-! ## References in content -/

/-- The character with this code point, written in digits with an optional plus sign. -/
def charOfNumeral? (base : Nat) (digits : List Char) : Option Char :=
  let digits := if digits.head? = some '+' then digits.tail else digits
  (readNumeral base digits).toOption.bind charOfCode?

/-- The character that the reference `&name;` stands for in content. -/
def contentReference? (name : String) : Option Char :=
  match predefinedEntities.lookup name with
  | some c => some c
  | none =>
    match name.toList with
    | '#' :: 'x' :: digits | '#' :: 'X' :: digits => charOfNumeral? 16 digits
    | '#' :: digits => charOfNumeral? 10 digits
    | _ => none

/-! ## References in the values of attributes -/

/-- What is wrong with a reference in the value of an attribute. Positions count the bytes of
the value. -/
inductive EscapeError where
  | unterminated (start stop : Nat)
  | signedNumber
  | numeral (cause : NumeralError)
  | nullCharacter
  | invalidCodePoint (code : Nat)
  | unknownEntity (start stop : Nat) (name : String)
  deriving DecidableEq, Repr

def NumeralError.message : NumeralError → String
  | .empty => "cannot parse integer from empty string"
  | .invalidDigit => "invalid digit found in string"
  | .tooLarge => "number too large to fit in target type"

def EscapeError.message : EscapeError → String
  | .unterminated start stop =>
    s!"Error while escaping character at range {start}..{stop}: Cannot find ';' after '&'"
  | .signedNumber => "invalid character reference: unexpected number sign"
  | .numeral cause => "invalid character reference: " ++ cause.message
  | .nullCharacter =>
    "invalid character reference: 0x0 character is not permitted in XML"
  | .invalidCodePoint code =>
    s!"invalid character reference: `{code}` is not a valid codepoint"
  | .unknownEntity start stop name => s!"at {start}..{stop}: unrecognized entity `{name}`"

/-- The character with this code point, for a reference in the value of an attribute. -/
def valueNumeral (base : Nat) (digits : List Char) : Except EscapeError Char :=
  if digits.head? = some '+' ∨ digits.head? = some '-' then .error .signedNumber
  else
    match readNumeral base digits with
    | .error cause => .error (.numeral cause)
    | .ok 0 => .error .nullCharacter
    | .ok code =>
      match charOfCode? code with
      | some c => .ok c
      | none => .error (.invalidCodePoint code)

/-- The character that a reference stands for in the value of an attribute. `start` and `stop`
bound the name. -/
def valueReference (start stop : Nat) (name : String) : Except EscapeError Char :=
  match name.toList with
  | '#' :: 'x' :: digits => valueNumeral 16 digits
  | '#' :: digits => valueNumeral 10 digits
  | _ =>
    match predefinedEntities.lookup name with
    | some c => .ok c
    | none => .error (.unknownEntity start stop name)

end ApiDocs.Xml
