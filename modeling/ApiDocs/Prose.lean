/-!
# Prose for events

The text that documents the methods of a delegate type on the type that raises them. A method
without a value is an event; one with a value is a slot for a function.
-/

namespace ApiDocs.Prose

def eventSummary : String := "Event raised by the object."

def delegateSummary : String := "Delegate invoked by the object to get a value."

/-- What assigning a value does to the property that holds the delegate. -/
def resets (property : String) : String :=
  s!"this will reset the value for the {property} property to an internal handler " ++
    "that maps delegates to events."

/-- The remarks on an event, whose delegate is held by `property`. -/
def eventRemarks (property : String) : String :=
  "If you assign a value to this event, " ++ resets property

/-- The remarks on a slot for a function, whose delegate is held by `property`. -/
def delegateRemarks (property : String) : String :=
  "You assign a function, delegate or anonymous method to this property to return a value " ++
    "to the object.   If you assign a value to this property, it " ++ resets property

end ApiDocs.Prose
