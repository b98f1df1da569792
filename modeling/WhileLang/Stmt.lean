import WhileLang.Expr

/-!
# Statements

A statement is `skip`, an assignment, a branch, a loop, or two statements in
order.  A program is a statement: a list of statements becomes one by nesting
`seq` to the right (`chain`), and every nesting has the same top-level statements
in the same order (`flatten`).

`flatten` works through a list of pending statements, and `flatten_seq` says that
it is nevertheless additive.  `rightNest` is the other direction taken
everywhere: it re-associates each chain to the right, also inside branches and
bodies.

Statements and expressions may be nested to any depth.  A machine whose stack is limited
gives up on a tree that is nested deeply enough, when it reads, prints or runs it; what is
said here about a tree is said of all trees, as on a machine with enough room.
-/

namespace WhileLang

inductive Stmt where
  | skip
  | assign (name : String) (expr : Expr)
  | branch (cond : Expr) (yes no : Stmt)
  | loop (cond : Expr) (body : Stmt)
  | seq (first second : Stmt)
  deriving DecidableEq

namespace Stmt

/-- How many constructors of `Stmt` the statement is built from. -/
def nodes : Stmt → Nat
  | .skip => 1
  | .assign .. => 1
  | .branch _ yes no => yes.nodes + no.nodes + 1
  | .loop _ body => body.nodes + 1
  | .seq first second => first.nodes + second.nodes + 1

theorem nodes_pos (s : Stmt) : 0 < s.nodes := by
  cases s <;> simp [nodes]

def nodesAll : List Stmt → Nat
  | [] => 0
  | s :: rest => s.nodes + nodesAll rest

def isSeq : Stmt → Bool
  | .seq .. => true
  | _ => false

/-! ### Chains -/

/-- The statements of a list in order, as one statement nested to the right. -/
def chain : List Stmt → Stmt
  | [] => .skip
  | [s] => s
  | s :: rest => .seq s (chain rest)

/-- The top-level statements of a list of pending statements, in order. -/
def flattenAll : List Stmt → List Stmt
  | [] => []
  | .seq first second :: pending => flattenAll (first :: second :: pending)
  | .skip :: pending => .skip :: flattenAll pending
  | .assign name expr :: pending => .assign name expr :: flattenAll pending
  | .branch cond yes no :: pending => .branch cond yes no :: flattenAll pending
  | .loop cond body :: pending => .loop cond body :: flattenAll pending
termination_by pending => nodesAll pending
decreasing_by
  all_goals simp only [nodesAll, nodes]
  all_goals omega

/-- The top-level statements in the order of execution; none of them is a `seq`. -/
def flatten (s : Stmt) : List Stmt := flattenAll [s]

/-- The statements that hang off the right spine: `first` of every `seq` on it, then its end. -/
def links : Stmt → List Stmt
  | .seq first second => first :: second.links
  | s => [s]

/-- The same statement with every chain nested to the right. -/
def rightNest : Stmt → Stmt
  | .skip => .skip
  | .assign name expr => .assign name expr
  | .branch cond yes no => .branch cond yes.rightNest no.rightNest
  | .loop cond body => .loop cond body.rightNest
  | .seq first second => append first.rightNest second.rightNest
where
  /-- Nests `s` to the right in front of `t`. -/
  append : Stmt → Stmt → Stmt
    | .seq first second, t => .seq first (append second t)
    | s, t => .seq s t

theorem flattenAll_cons_seq (first second : Stmt) (pending : List Stmt) :
    flattenAll (.seq first second :: pending) = flattenAll (first :: second :: pending) := by
  rw [flattenAll]

theorem flattenAll_cons_of_not_isSeq {s : Stmt} (h : s.isSeq = false) (pending : List Stmt) :
    flattenAll (s :: pending) = s :: flattenAll pending := by
  cases s with
  | seq => cases h
  | _ => rw [flattenAll]

/-- What holds when nothing is pending, and holds of pending statements if it holds of what is
pending after the first of them has been looked at, holds of all pending statements. -/
theorem flattenAll_induction {motive : List Stmt → Prop} (nil : motive [])
    (seq : ∀ first second pending, motive (first :: second :: pending) →
      motive (.seq first second :: pending))
    (leaf : ∀ s pending, s.isSeq = false → motive pending → motive (s :: pending))
    (pending : List Stmt) : motive pending := by
  induction pending using flattenAll.induct with
  | case1 => exact nil
  | case2 first second pending ih => exact seq first second pending ih
  | case3 pending ih => exact leaf .skip pending rfl ih
  | case4 name expr pending ih => exact leaf (.assign name expr) pending rfl ih
  | case5 cond yes no pending ih => exact leaf (.branch cond yes no) pending rfl ih
  | case6 cond body pending ih => exact leaf (.loop cond body) pending rfl ih

theorem flattenAll_append (pending rest : List Stmt) :
    flattenAll (pending ++ rest) = flattenAll pending ++ flattenAll rest := by
  induction pending using flattenAll_induction with
  | nil => rw [flattenAll, List.nil_append, List.nil_append]
  | seq first second pending ih =>
    rw [List.cons_append, flattenAll_cons_seq, flattenAll_cons_seq]
    exact ih
  | leaf s pending hs ih =>
    rw [List.cons_append, flattenAll_cons_of_not_isSeq hs, flattenAll_cons_of_not_isSeq hs, ih,
      List.cons_append]

@[simp] theorem flatten_seq (first second : Stmt) :
    (seq first second).flatten = first.flatten ++ second.flatten := by
  show flattenAll [seq first second] = flattenAll [first] ++ flattenAll [second]
  rw [← flattenAll_append, flattenAll]
  rfl

theorem flatten_of_not_isSeq {s : Stmt} (h : s.isSeq = false) : s.flatten = [s] := by
  rw [flatten, flattenAll_cons_of_not_isSeq h, flattenAll]

end Stmt

end WhileLang
