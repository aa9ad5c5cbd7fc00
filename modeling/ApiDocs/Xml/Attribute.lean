import ApiDocs.Text.Blank
import ApiDocs.Xml.Node
import ApiDocs.Xml.Reference

/-!
# Reading the attributes of a tag

Attributes are read one after the other, each value unescaped before the next key is looked
at. Positions in errors count bytes from the first byte of the tag's name.
-/

namespace ApiDocs.Xml

open Text

/-- What is wrong with the attributes of a tag. -/
inductive AttributeError where
  | missingEquals (position : Nat)
  | duplicated (position previous : Nat)
  | missingValue (position : Nat)
  | unquotedValue (position : Nat)
  | missingQuote (position : Nat) (quote : Char)
  | escape (cause : EscapeError)
  deriving DecidableEq, Repr

def AttributeError.message : AttributeError → String
  | .missingEquals position =>
    s!"position {position}: attribute key must be directly followed by `=` or space"
  | .duplicated position previous =>
    s!"position {position}: duplicated attribute, previous declaration at position {previous}"
  | .missingValue position =>
    s!"position {position}: `=` must be followed by an attribute value"
  | .unquotedValue position =>
    s!"position {position}: attribute value must be enclosed in `\"` or `'`"
  | .missingQuote position quote =>
    s!"position {position}: missing closing quote `{quote}` in attribute value"
  | .escape cause => cause.message

/-! ## Values -/

/-- Resolves the references of a value. `position` counts the bytes before `cs`, and `total`
those of the whole value. -/
def unescapeFrom (total position : Nat) (cs : List Char) : Except EscapeError (List Char) :=
  match cs with
  | [] => .ok []
  | '&' :: afterMark =>
    let name := afterMark.takeWhile fun c => c ≠ '&' && c ≠ ';'
    match h : afterMark.dropWhile fun c => c ≠ '&' && c ≠ ';' with
    | ';' :: rest => do
      let stop := position + 1 + byteCount name
      let c ← valueReference (position + 1) stop (String.ofList name)
      let others ← unescapeFrom total (stop + 1) rest
      return c :: others
    | _ => .error (.unterminated position total)
  | c :: rest => do
    let others ← unescapeFrom total (position + c.utf8Size) rest
    return c :: others
termination_by cs.length
decreasing_by
  · have := length_dropWhile_le (fun c => c ≠ '&' && c ≠ ';') afterMark
    simp_all only [List.length_cons]
    omega
  · simp

/-- The characters that a value stands for. -/
def unescape (raw : List Char) : Except EscapeError String := do
  return String.ofList (← unescapeFrom (byteCount raw) 0 raw)

/-! ## Keys and values in a tag -/

/-- A place in a tag: the characters that follow, and the bytes before them. -/
structure Place where
  position : Nat
  rest : List Char

/-- The next place that is not white space. -/
def Place.skipSpace (p : Place) : Place :=
  ⟨p.position + byteCount (p.rest.takeWhile isSpace), p.rest.dropWhile isSpace⟩

theorem Place.length_skipSpace_le (p : Place) : p.skipSpace.rest.length ≤ p.rest.length :=
  length_dropWhile_le _ _

/-- A key with the position where it starts, and the place behind its equals sign. -/
structure Key where
  start : Nat
  name : String
  next : Place

/-- Reads a key and the equals sign behind it; there is no key if only white space is left.
The first character belongs to the key, whatever it is. -/
def readKey? (p : Place) : Except AttributeError (Option Key) :=
  match p.skipSpace with
  | ⟨_, []⟩ => .ok none
  | ⟨start, first :: rest⟩ =>
    let name := first :: rest.takeWhile fun c => c ≠ '=' && !isSpace c
    let behind := Place.skipSpace
      ⟨start + byteCount name, rest.dropWhile fun c => c ≠ '=' && !isSpace c⟩
    match behind.rest with
    | '=' :: rest => .ok (some ⟨start, String.ofList name, ⟨behind.position + 1, rest⟩⟩)
    | _ => .error (.missingEquals behind.position)

theorem length_lt_of_readKey? {p : Place} {key : Key} (h : readKey? p = .ok (some key)) :
    key.next.rest.length < p.rest.length := by
  have hskip := p.length_skipSpace_le
  unfold readKey? at h
  split at h
  · simp at h
  next start first rest hp =>
    simp only at h
    split at h
    next after hafter =>
      simp only [Except.ok.injEq, Option.some.injEq] at h
      subst h
      have hle := Place.length_skipSpace_le
        ⟨start + byteCount (first :: rest.takeWhile fun c => c ≠ '=' && !isSpace c),
          rest.dropWhile fun c => c ≠ '=' && !isSpace c⟩
      have hdrop := length_dropWhile_le (fun c => c ≠ '=' && !isSpace c) rest
      rw [hafter] at hle
      rw [hp] at hskip
      simp only [List.length_cons] at hle hskip ⊢
      omega
    · simp at h

/-- A value as it is written between its quotes, and the place behind the closing quote. -/
structure RawValue where
  raw : List Char
  next : Place

/-- Reads the value behind an equals sign. -/
def readValue (p : Place) : Except AttributeError RawValue :=
  match p.skipSpace with
  | ⟨position, []⟩ => .error (.missingValue position)
  | ⟨position, quote :: rest⟩ =>
    if quote = '"' ∨ quote = '\'' then
      let raw := rest.takeWhile (· ≠ quote)
      let stop := position + 1 + byteCount raw
      match rest.dropWhile (· ≠ quote) with
      | _ :: after => .ok ⟨raw, ⟨stop + 1, after⟩⟩
      | [] => .error (.missingQuote stop quote)
    else .error (.unquotedValue position)

theorem length_le_of_readValue {p : Place} {value : RawValue} (h : readValue p = .ok value) :
    value.next.rest.length ≤ p.rest.length := by
  have hskip := p.length_skipSpace_le
  unfold readValue at h
  split at h
  · simp at h
  next position quote rest hp =>
    split at h
    · split at h
      next c after hafter =>
        simp only [Except.ok.injEq] at h
        subst h
        have hdrop := length_dropWhile_le (· ≠ quote) rest
        rw [hafter] at hdrop
        rw [hp] at hskip
        simp only [List.length_cons] at hdrop hskip ⊢
        omega
      · simp at h
    · simp at h

/-- Reads all attributes from a place on. `seen` holds the keys before it, each with the
position where it starts. -/
def readAttributes (seen : List (String × Nat)) (p : Place) :
    Except AttributeError (List Attribute) :=
  match _hkey : readKey? p with
  | .error cause => .error cause
  | .ok none => .ok []
  | .ok (some key) =>
    match seen.lookup key.name with
    | some previous => .error (.duplicated key.start previous)
    | none =>
      match _hvalue : readValue key.next with
      | .error cause => .error cause
      | .ok value =>
        match unescape value.raw with
        | .error cause => .error (.escape cause)
        | .ok content => do
          let others ← readAttributes ((key.name, key.start) :: seen) value.next
          return ⟨key.name, content⟩ :: others
termination_by p.rest.length
decreasing_by
  have := length_lt_of_readKey? _hkey
  have := length_le_of_readValue _hvalue
  omega

/-- A start tag: its name, and what stands behind the name. -/
structure Tag where
  name : String
  rest : String
  deriving DecidableEq, Repr

/-- The tag with this content. The name ends at the first white space. -/
def Tag.ofContent (content : List Char) : Tag :=
  ⟨String.ofList (content.takeWhile (! isSpace ·)), String.ofList (content.dropWhile (! isSpace ·))⟩

/-- The attributes of the tag. -/
def Tag.attributes (tag : Tag) : Except AttributeError (List Attribute) :=
  readAttributes [] ⟨tag.name.utf8ByteSize, tag.rest.toList⟩

end ApiDocs.Xml
