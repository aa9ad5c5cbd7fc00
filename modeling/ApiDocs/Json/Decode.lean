import ApiDocs.Json.Skip

/-!
# Decoding values

Readers of values of a known kind, and of records: objects whose keys name the fields, or lists
that give the fields in order. A field that is missing has its default, unless it is required.
Keys that name no field are passed over with their values, and no field is given twice.
-/

namespace ApiDocs.Json

open Reader

/-- Reads the scalar, or looks at the bracket, in front, where a value of another kind is
expected. -/
def found (c : Char) : Reader Found := do
  match c with
  | '[' => return .sequence
  | '\x7b' => return .map
  | _ =>
    if c.isDigit then number false
    else
      let _ ← next?
      match c with
      | 'n' => literal "ull"; return .null
      | 't' => literal "rue"; return .boolean true
      | 'f' => literal "alse"; return .boolean false
      | '"' => return .string (← stringContent)
      | '-' => number true
      | _ => fail .expectedValue

/-- The fault that the value in front is of another kind. A fault of that value comes first. -/
def wrongKind (c : Char) (expected : String) : Reader α := do
  fail (.wrongKind (← found c) expected)

/-- The first character of a value. -/
def valueStart : Reader Char := do
  match ← peekToken? with
  | some c => return c
  | none => fail .endInValue

/-- Reads a string. -/
def string : Reader String := do
  let c ← valueStart
  if c = '"' then
    let _ ← next?
    stringContent
  else wrongKind c "a string"

/-- Reads `null`, or else a value. -/
def optional (r : Reader α) : Reader (Option α) := do
  if (← peekToken?) = some 'n' then
    let _ ← next?
    literal "ull"
    return none
  else return some (← r)

/-- Reads `null`. -/
def null : Reader Unit := do
  let c ← valueStart
  if c = 'n' then
    let _ ← next?
    literal "ull"
  else wrongKind c "unit"

/-! ## Lists -/

/-- There is another item in a list. The comma in front of it is taken off. -/
def hasItem (first : Bool) : Reader Bool := do
  match ← peekToken? with
  | none => fail .endInList
  | some ']' => return false
  | some c =>
    if first then return true
    else if c = ',' then
      let _ ← next?
      match ← peekToken? with
      | none => fail .endInValue
      | some ']' => fail .trailingComma
      | some _ => return true
    else fail .expectedListEnd

/-- Takes off the bracket that closes a list, when no more items are asked for. -/
def closeList : Reader Unit := do
  match ← peekToken? with
  | none => fail .endInList
  | some c =>
    let _ ← next?
    if c = ']' then return ()
    else if c = ',' ∧ (← peekToken?) = some ']' then fail .trailingComma
    else fail .trailingCharacters

/-- Reads a list of items. -/
def list (item : Reader α) : Reader (List α) := do
  let c ← valueStart
  if c = '[' then
    let _ ← next?
    let items ← iterate (fun (before : List α) => do
      if ← hasItem before.isEmpty then return some ((← item) :: before) else return none) []
    closeList
    return items.reverse
  else wrongKind c "a sequence"

/-! ## Objects -/

/-- The key of the next entry of an object, if there is one. -/
def nextKey? (first : Bool) : Reader (Option String) := do
  match ← peekToken? with
  | none => fail .endInObject
  | some '\x7d' => return none
  | some c =>
    if first then key c
    else if c = ',' then
      let _ ← next?
      match ← peekToken? with
      | none => fail .endInValue
      | some '\x7d' => fail .trailingComma
      | some c => key c
    else fail .expectedObjectEnd
where
  key (c : Char) : Reader (Option String) := do
    if c = '"' then
      let _ ← next?
      return some (← stringContent)
    else fail .keyNotString

/-- Takes off the colon behind a key. -/
def colon : Reader Unit := do
  match ← peekToken? with
  | none => fail .endInObject
  | some c =>
    let _ ← next?
    if c = ':' then return () else fail .expectedColon

/-! ## Choices -/

/-- The option of a name. -/
def pick (options : List (String × α)) (name : String) : Reader α :=
  match options.lookup name with
  | some value => return value
  | none => fail (.unknownVariant name (options.map (·.1)))

/-- Reads a choice among names: one of them as a string, or an object that has one of them as its
only key, with the value `null`. -/
def choice (options : List (String × α)) : Reader α := do
  let c ← valueStart
  if c = '"' then
    let _ ← next?
    pick options (← stringContent)
  else if c = '\x7b' then
    let _ ← next?
    match ← nextKey? true with
    | none => fail .expectedValue
    | some name =>
      let value ← pick options name
      colon
      null
      match ← peekToken? with
      | none => fail .endInObject
      | some '\x7d' =>
        let _ ← next?
        return value
      | some _ => fail .expectedValue
  else fail .expectedValue

/-! ## Records -/

/-- A field of a record of type `α`. -/
structure Field (α : Type) where
  key : String
  required : Bool := false
  /-- Reads the value of the field, and puts it into the record. -/
  value : Reader (α → α)

/-- A field whose value is put into the record by `set`. -/
def Field.of (key : String) (value : Reader β) (set : β → α → α) (required : Bool := false) :
    Field α :=
  { key, required, value := do return set (← value) }

/-- The form of a record: its name, its fields in order, and the record with all defaults. -/
structure Form (α : Type) where
  name : String
  fields : List (Field α)
  defaults : α

/-- The entries of an object that were read so far. -/
structure Entries (α : Type) where
  record : α
  keys : List String := []
  first : Bool := true

namespace Form

/-- Reads one more entry of an object. -/
def entry (form : Form α) (before : Entries α) : Reader (Option (Entries α)) := do
  match ← nextKey? before.first with
  | none => return none
  | some key =>
    match form.fields.find? (·.key = key) with
    | none =>
      colon
      skipValue
      return some { before with first := false }
    | some field =>
      if key ∈ before.keys then fail (.duplicateField key)
      else
        colon
        let set ← field.value
        return some { record := set before.record, keys := key :: before.keys, first := false }

/-- Reads the entries of an object behind its opening bracket. -/
def object (form : Form α) : Reader α := do
  let entries ← iterate form.entry { record := form.defaults }
  let _ ← next?
  match form.fields.find? fun field => field.required && field.key ∉ entries.keys with
  | some field => fail (.missingField field.key)
  | none => return entries.record

/-- What a list that is too short for the record should have been. -/
def positionalKind (form : Form α) : String :=
  let count := form.fields.length
  s!"struct {form.name} with {count} element" ++ if count = 1 then "" else "s"

/-- Reads the fields from one position on from a list. -/
def positional (form : Form α) (position : Nat) (record : α) : List (Field α) → Reader α
  | [] => do
    closeList
    return record
  | field :: rest => do
    if ← hasItem (position == 0) then
      let set ← field.value
      form.positional (position + 1) (set record) rest
    else if field.required then fail (.tooFewItems position form.positionalKind)
    else form.positional (position + 1) record rest

/-- Reads a record. -/
def read (form : Form α) : Reader α := do
  let c ← valueStart
  if c = '\x7b' then
    let _ ← next?
    form.object
  else if c = '[' then
    let _ ← next?
    form.positional 0 form.defaults form.fields
  else wrongKind c s!"struct {form.name}"

end Form

end ApiDocs.Json
