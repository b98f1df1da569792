import WhileLang.Eval

/-!
# Runs

A run works through a list of pending statements.  Two statements in order put both
on the list, a branch puts the side it takes there, and a loop whose condition holds
puts its body there and itself again behind it.  So a run never descends into a
chain, and what is left of it is always a list of statements.

A program need not terminate.  A run therefore gets a budget of steps and answers
`none` when the budget is used up before the list is; a program diverges when it does so
with every budget.
-/

namespace WhileLang

inductive Outcome where
  | finished (st : Store)
  | stopped (e : RunError)
  deriving DecidableEq

/-- Runs pending statements in order from a store, within a budget of steps. -/
def runAll : Nat → List Stmt → Store → Option Outcome
  | _, [], st => some (.finished st)
  | 0, _ :: _, _ => none
  | n + 1, s :: pending, st =>
    match s with
    | .skip => runAll n pending st
    | .assign name expr =>
      match s.eval st expr with
      | .error e => some (.stopped e)
      | .ok value => runAll n pending (st.update name value)
    | .branch cond yes no =>
      match s.eval st cond with
      | .error e => some (.stopped e)
      | .ok value => runAll n ((if value.holds then yes else no) :: pending) st
    | .loop cond body =>
      match s.eval st cond with
      | .error e => some (.stopped e)
      | .ok value => if value.holds then runAll n (body :: s :: pending) st else runAll n pending st
    | .seq first second => runAll n (first :: second :: pending) st

def Stmt.run (s : Stmt) (budget : Nat) (st : Store) : Option Outcome := runAll budget [s] st

end WhileLang
