import WhileLang.Analysis
import WhileLang.Log
import WhileLang.Run

/-!
# The gate

A program is interpreted from the empty store, and only if its analysis exposes no
name.  A rejected program is not started at all, so interpreting it takes no budget.

`Stmt.printout` is what a user is told: the final store, or the exposed names.

`Stmt.trace` runs the top-level statements of a program one by one, without a gate, and
keeps, for each, the names it may read unbound and how it ended.  A statement that stops
early changes nothing: the next one starts from the same store.
-/

namespace WhileLang

inductive Interpretation where
  /-- The program may read these names before it writes them. -/
  | rejected (names : NameSet)
  | ran (outcome : Outcome)
  deriving DecidableEq

namespace Stmt

/-- Runs a program from the empty store if it is safe, within a budget of steps. -/
def interpret (s : Stmt) (budget : Nat) : Option Interpretation :=
  if s.analyze.isSafe then (s.run budget ∅).map .ran else some (.rejected s.analyze.exposed)

/-- A program is run by the gate exactly if it is safe, and then from the empty store. -/
theorem interpret_eq_ran_iff {s : Stmt} {n : Nat} {o : Outcome} :
    s.interpret n = some (.ran o) ↔ s.analyze.isSafe = true ∧ s.run n ∅ = some o := by
  rw [interpret]
  cases hsafe : s.analyze.isSafe with
  | true =>
    cases hr : s.run n ∅ with
    | none => simp
    | some o' => simp
  | false => simp

def gateEvent (s : Stmt) : Event :=
  if s.analyze.isSafe then .accepted else .rejected s.analyze.exposed

end Stmt

def rejection (names : NameSet) : String :=
  "Program rejected: may read before assignment: " ++ names.listed ++ "\n"

def Store.printout (st : Store) : String := "Output Store:\n" ++ st.render ++ "\n"

/-- A text that was printed, and whether the program ran to its end. -/
structure Printout where
  ran : Bool
  text : String
  deriving DecidableEq

def Stmt.printout (s : Stmt) (budget : Nat) : Option (Except RunError Printout) :=
  (s.interpret budget).map fun
    | .rejected names => .ok ⟨false, rejection names⟩
    | .ran (.finished st) => .ok ⟨true, st.printout⟩
    | .ran (.stopped e) => .error e

/-! ### Traces -/

structure TraceStep where
  stmt : Stmt
  unbound : NameSet
  outcome : Outcome
  deriving DecidableEq

/-- The store that the next statement of a trace starts from. -/
def Outcome.after (before : Store) : Outcome → Store
  | .finished st => st
  | .stopped _ => before

def traceFrom (budget : Nat) (st : Store) : List Stmt → Option (List TraceStep)
  | [] => some []
  | s :: rest => do
    let outcome ← s.run budget st
    let steps ← traceFrom budget (outcome.after st) rest
    return ⟨s, s.exposedFrom st.keys, outcome⟩ :: steps

def Stmt.trace (s : Stmt) (budget : Nat) (st : Store) : Option (List TraceStep) :=
  traceFrom budget st s.flatten

end WhileLang
