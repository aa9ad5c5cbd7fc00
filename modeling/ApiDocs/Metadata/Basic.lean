/-!
# Declared types

What the generator of an API tells about it: the types that it declared, their members, and for
each type the events that it raises through delegates.
-/

namespace ApiDocs

/-- Whether a member is read like a property or called like a method. -/
inductive MemberKind where
  | property
  | method
  deriving DecidableEq, Repr

/-- A member that a type declares. -/
structure ApiMember where
  name : String
  kind : MemberKind := .property
  /-- The full name of the type of its value; without one it has no value. -/
  returnType : Option String := none
  /-- The exported symbol that it wraps. -/
  symbol : Option String := none
  deriving DecidableEq, Repr

/-- The names of the type that has no values; an empty name says the same. -/
def voidNames : List String := ["", "System.Void", "void"]

/-- The member gives a value. -/
def ApiMember.hasValue (m : ApiMember) : Bool :=
  match m.returnType with
  | none => false
  | some name => ! voidNames.contains name

/-- The delegates of a type: `events` are the delegate types, and `delegates` the properties that
hold them, paired by position. -/
structure EventBinding where
  events : List String := []
  delegates : List String := []
  deriving DecidableEq, Repr

/-- A delegate type, and the property that holds it. -/
structure EventGroup where
  delegateType : String
  property : String
  deriving DecidableEq, Repr

/-- The pairs of delegate types and properties. -/
def EventBinding.groups (b : EventBinding) : List EventGroup :=
  List.zipWith EventGroup.mk b.events b.delegates

/-- A type that the generator declared. -/
structure ApiType where
  /-- The namespace, which is empty for a global type. -/
  nameSpace : String := ""
  name : String
  members : List ApiMember := []
  binding : Option EventBinding := none
  deriving DecidableEq, Repr

namespace ApiType

/-- The name within its namespace. -/
def fullName (t : ApiType) : String :=
  if t.nameSpace = "" then t.name else t.nameSpace ++ "." ++ t.name

/-- The members that are methods. -/
def methods (t : ApiType) : List ApiMember :=
  t.members.filter (·.kind = .method)

/-- The members that wrap a symbol, with their symbols. -/
def exported (t : ApiType) : List (ApiMember × String) :=
  t.members.filterMap fun m => m.symbol.map (m, ·)

end ApiType

end ApiDocs
