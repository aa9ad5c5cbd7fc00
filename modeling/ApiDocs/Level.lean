import ApiDocs.Text.Blank

/-!
# Log levels

Each notice has a level, and a verbosity decides which levels are shown. A verbosity is given by
name; what is no name means the same as no name at all.
-/

namespace ApiDocs

/-- How much a notice matters, from the most to the least. -/
inductive Level where
  | error
  | warn
  | info
  | debug
  | trace
  deriving DecidableEq, Repr

namespace Level

def all : List Level := [error, warn, info, debug, trace]

def rank : Level → Nat
  | error => 1
  | warn => 2
  | info => 3
  | debug => 4
  | trace => 5

/-- The name in capital letters. -/
def name : Level → String
  | error => "ERROR"
  | warn => "WARN"
  | info => "INFO"
  | debug => "DEBUG"
  | trace => "TRACE"

end Level

/-- Which notices are shown: none, or those that matter at least as much as a level. -/
inductive Verbosity where
  | off
  | upTo (level : Level)
  deriving DecidableEq, Repr

namespace Verbosity

/-- Notices of this level are shown. -/
def shows : Verbosity → Level → Bool
  | off, _ => false
  | upTo limit, level => level.rank ≤ limit.rank

/-- The name in capital letters. -/
def name : Verbosity → String
  | off => "OFF"
  | upTo level => level.name

/-- The name with one capital letter. -/
def title : Verbosity → String
  | off => "Off"
  | upTo .error => "Error"
  | upTo .warn => "Warn"
  | upTo .info => "Info"
  | upTo .debug => "Debug"
  | upTo .trace => "Trace"

def all : List Verbosity := off :: Level.all.map upTo

/-- The verbosity with this name, in any case and with blanks around it; `info` if there is none
with it. -/
def ofName (name : Option String) : Verbosity :=
  let wanted := name.map fun s => (Text.trim s).map Char.toUpper
  (all.find? fun v => some v.name = wanted).getD (upTo .info)

end Verbosity

end ApiDocs
