import ApiDocs.Decimal.Shortest
import ApiDocs.Text.Quoted

/-!
# Faults of JSON texts

Why a text is not the JSON value that a reader asks for. The faults of the text itself and the
values of a wrong kind are told apart, for the first fault in reading order is the one reported.
-/

namespace ApiDocs.Json

/-- What stands where a value of another kind is expected. -/
inductive Found where
  | null
  | boolean (value : Bool)
  | integer (value : Int)
  | real (value : Decimal)
  | string (value : String)
  | sequence
  | map
  deriving DecidableEq, Repr

def Found.describe : Found → String
  | .null => "null"
  | .boolean value => s!"boolean `{value}`"
  | .integer value => s!"integer `{value}`"
  | .real value => s!"floating point `{value.render}`"
  | .string value => "string " ++ Text.quoted value
  | .sequence => "sequence"
  | .map => "map"

/-- Why a JSON text cannot be read. -/
inductive Fault where
  | endInValue
  | endInString
  | endInList
  | endInObject
  | expectedValue
  | expectedLiteral
  | expectedColon
  | expectedListEnd
  | expectedObjectEnd
  | keyNotString
  | trailingComma
  | trailingCharacters
  | invalidNumber
  | numberOutOfRange
  | invalidEscape
  | controlCharacter
  | loneSurrogate
  | unfinishedSurrogate
  | wrongKind (found : Found) (expected : String)
  | unknownVariant (found : String) (variants : List String)
  | duplicateField (key : String)
  | missingField (key : String)
  | tooFewItems (count : Nat) (expected : String)
  deriving DecidableEq, Repr

def Fault.message : Fault → String
  | .endInValue => "EOF while parsing a value"
  | .endInString => "EOF while parsing a string"
  | .endInList => "EOF while parsing a list"
  | .endInObject => "EOF while parsing an object"
  | .expectedValue => "expected value"
  | .expectedLiteral => "expected ident"
  | .expectedColon => "expected `:`"
  | .expectedListEnd => "expected `,` or `]`"
  | .expectedObjectEnd => "expected `,` or `\x7d`"
  | .keyNotString => "key must be a string"
  | .trailingComma => "trailing comma"
  | .trailingCharacters => "trailing characters"
  | .invalidNumber => "invalid number"
  | .numberOutOfRange => "number out of range"
  | .invalidEscape => "invalid escape"
  | .controlCharacter =>
    "control character (\\u0000-\\u001F) found while parsing a string"
  | .loneSurrogate => "lone leading surrogate in hex escape"
  | .unfinishedSurrogate => "unexpected end of hex escape"
  | .wrongKind found expected => s!"invalid type: {found.describe}, expected {expected}"
  | .unknownVariant found variants =>
    let listed := " or ".intercalate (variants.map fun v => s!"`{v}`")
    s!"unknown variant `{found}`, expected {listed}"
  | .duplicateField key => s!"duplicate field `{key}`"
  | .missingField key => s!"missing field `{key}`"
  | .tooFewItems count expected => s!"invalid length {count}, expected {expected}"

end ApiDocs.Json
