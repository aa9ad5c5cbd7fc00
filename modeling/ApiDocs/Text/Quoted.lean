import ApiDocs.Text.Printable

/-!
# Quoted text

Text between double quotes, as it is shown in messages: quotes and backslashes are escaped,
and a character that would not show up on its own is given by its code point.
-/

namespace ApiDocs.Text

/-- How a character is written between double quotes. -/
def quoteEscape (c : Char) : List Char :=
  match c with
  | '"' => ['\\', '"']
  | '\\' => ['\\', '\\']
  | '\n' => ['\\', 'n']
  | '\r' => ['\\', 'r']
  | '\t' => ['\\', 't']
  | _ =>
    if c.toNat = 0 then ['\\', '0']
    else if isPlain c then [c]
    else "\\u\x7b".toList ++ Nat.toDigits 16 c.toNat ++ ['\x7d']

/-- The text between double quotes. -/
def quoted (s : String) : String :=
  "\"" ++ String.ofList (s.toList.flatMap quoteEscape) ++ "\""

end ApiDocs.Text
