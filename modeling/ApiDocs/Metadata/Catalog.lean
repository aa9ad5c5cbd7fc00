import ApiDocs.Metadata.Basic
import ApiDocs.Notice

/-!
# Catalogs

A catalog holds all declared types in order and finds them by full name. Of several types with
one full name the first is found; the others are told in a notice, and stay in the list.
-/

namespace ApiDocs

/-- All declared types, with the position of the first type for each full name. -/
structure Catalog where
  types : Array ApiType := #[]
  positions : Std.ExtTreeMap String Nat := ∅

namespace Catalog

/-- The failure of a binding whose two lists do not pair up. -/
def checkBinding (t : ApiType) : Except Failure Unit :=
  match t.binding with
  | none => .ok ()
  | some binding =>
    if binding.events.length = binding.delegates.length then .ok ()
    else .error (.unpairedBinding t.fullName binding.events.length binding.delegates.length)

/-- Enters types into a table of positions, the first of them at `position`. The notices are those
given up to the first failure. -/
def enter (position : Nat) (table : Std.ExtTreeMap String Nat) :
    List ApiType → List Notice × Except Failure (Std.ExtTreeMap String Nat)
  | [] => ([], .ok table)
  | t :: rest =>
    match checkBinding t with
    | .error cause => ([], .error cause)
    | .ok () =>
      if table.contains t.fullName then
        let (notices, result) := enter (position + 1) table rest
        (.duplicateType t.fullName :: notices, result)
      else enter (position + 1) (table.insert t.fullName position) rest

/-- The catalog of these types, with the notices about them. -/
def ofTypes (types : List ApiType) : List Notice × Except Failure Catalog :=
  let (notices, result) := enter 0 ∅ types
  (notices, result.map fun positions => { types := types.toArray, positions })

/-- The position of the type with this full name. -/
def position? (c : Catalog) (fullName : String) : Option Nat :=
  c.positions[fullName]?

/-- The type with this full name. -/
def lookup? (c : Catalog) (fullName : String) : Option ApiType :=
  (c.position? fullName).bind (c.types[·]?)

end Catalog

end ApiDocs
