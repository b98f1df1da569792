import WhileLang.Analysis
import WhileLang.Stmt.Equality

/-!
# Drafts

A draft is a tree that somebody has put together by hand: a statement or an expression,
except that a bare value or a bare text may stand where a node belongs.
`Draft.node?` finds out whether it is a node after all.  Parts are looked at in the order
of the analysis, which goes to the parts of a branch or a loop before its condition, and
the first part that is no node is the one reported.
-/

namespace WhileLang

/-- A tree that may hold parts that are no nodes. -/
inductive Draft where
  | value (v : Value)
  | text (s : String)
  | var (name : String)
  | lit (v : Value)
  | bin (op : Operator) (left right : Draft)
  | skip
  | assign (name : String) (expr : Draft)
  | branch (cond yes no : Draft)
  | loop (cond body : Draft)
  | seq (first second : Draft)
  deriving DecidableEq

inductive Node where
  | expr (e : Expr)
  | stmt (s : Stmt)
  deriving DecidableEq

/-- A part of a draft that is no node of the sort that belongs there. -/
inductive NotNode where
  | value (v : Value)
  | text (s : String)
  | node (n : Node)
  deriving DecidableEq

def NotNode.message (n : NotNode) : String :=
  "not a WHILE node: " ++
    match n with
    | .value v => v.debug
    | .text s => quoted s
    | .node (.expr e) => e.debug
    | .node (.stmt s) => s.debug

namespace Node

def expr? : Node → Except NotNode Expr
  | .expr e => .ok e
  | n => .error (.node n)

def stmt? : Node → Except NotNode Stmt
  | .stmt s => .ok s
  | n => .error (.node n)

theorem expr?_eq_ok {n : Node} {e : Expr} : n.expr? = .ok e ↔ n = .expr e := by
  cases n <;> simp [expr?]

theorem stmt?_eq_ok {n : Node} {s : Stmt} : n.stmt? = .ok s ↔ n = .stmt s := by
  cases n <;> simp [stmt?]

def same : Node → Node → Bool
  | .expr e, .expr e' => e == e'
  | .stmt s, .stmt s' => s.same s'
  | _, _ => false

def hashCode : Node → UInt64
  | .expr e => e.hashCode
  | .stmt s => s.hashCode

end Node

namespace Draft

def ofExpr : Expr → Draft
  | .var name => .var name
  | .lit v => .lit v
  | .bin op left right => .bin op (ofExpr left) (ofExpr right)

def ofStmt : Stmt → Draft
  | .skip => .skip
  | .assign name expr => .assign name (ofExpr expr)
  | .branch cond yes no => .branch (ofExpr cond) (ofStmt yes) (ofStmt no)
  | .loop cond body => .loop (ofExpr cond) (ofStmt body)
  | .seq first second => .seq (ofStmt first) (ofStmt second)

end Draft

def Node.draft : Node → Draft
  | .expr e => .ofExpr e
  | .stmt s => .ofStmt s

namespace Draft

def chain : List Draft → Draft
  | [] => .skip
  | [d] => d
  | d :: rest => .seq d (chain rest)

def chainLeft (first : Draft) (rest : List Draft) : Draft := rest.foldl .seq first

/-- The node that a draft is. -/
def node? : Draft → Except NotNode Node
  | .value v => .error (.value v)
  | .text s => .error (.text s)
  | .var name => .ok (.expr (.var name))
  | .lit v => .ok (.expr (.lit v))
  | .bin op left right => do
    let l ← (← left.node?).expr?
    let r ← (← right.node?).expr?
    return .expr (.bin op l r)
  | .skip => .ok (.stmt .skip)
  | .assign name expr => do
    let e ← (← expr.node?).expr?
    return .stmt (.assign name e)
  | .branch cond yes no => do
    let y ← (← yes.node?).stmt?
    let n ← (← no.node?).stmt?
    let c ← (← cond.node?).expr?
    return .stmt (.branch c y n)
  | .loop cond body => do
    let b ← (← body.node?).stmt?
    let c ← (← cond.node?).expr?
    return .stmt (.loop c b)
  | .seq first second => do
    let a ← (← first.node?).stmt?
    let b ← (← second.node?).stmt?
    return .stmt (.seq a b)

def expr? (d : Draft) : Except NotNode Expr := do (← d.node?).expr?

def stmt? (d : Draft) : Except NotNode Stmt := do (← d.node?).stmt?

/-- Whether two drafts are the same; nodes are compared as nodes. -/
def same (a b : Draft) : Bool :=
  match a.node?, b.node? with
  | .ok a, .ok b => a.same b
  | _, _ => a == b

/-- Whether two drafts that are nodes have the same number; parts that are no nodes have none. -/
def sameHash (a b : Draft) : Bool :=
  match a.node?, b.node? with
  | .ok a, .ok b => a.hashCode == b.hashCode
  | _, _ => a == b

end Draft

end WhileLang
