import WhileLang.NameSet

/-!
# The log

What the interpreter does may be followed in a log.  An event is written from some
verbosity on: one for what a user may want to know, two for the rest.
-/

namespace WhileLang

inductive Event where
  /-- A program was read. -/
  | parsed (statements : Nat)
  /-- A program was not run. -/
  | rejected (names : NameSet)
  /-- A program is run. -/
  | accepted
  deriving DecidableEq

def NameSet.listed (s : NameSet) : String := ", ".intercalate s.names

namespace Event

/-- The least verbosity at which the event is written. -/
def verbosity : Event → Nat
  | .parsed _ => 2
  | .rejected _ => 1
  | .accepted => 2

def message : Event → String
  | .parsed statements => "parsed " ++ statements.repr ++ " top-level statement(s)"
  | .rejected names => "rejected: " ++ names.listed ++ " may be read before assignment"
  | .accepted => "accepted; running from the empty store"

def line (e : Event) : String :=
  "[while_interpreter] " ++ (if e.verbosity = 1 then "INFO" else "DEBUG") ++ ": " ++ e.message
    ++ "\n"

def log (verbosity : Nat) (events : List Event) : String :=
  "".intercalate ((events.filter fun e => e.verbosity ≤ verbosity).map line)

end Event

end WhileLang
