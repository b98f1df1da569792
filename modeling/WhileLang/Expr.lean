import WhileLang.NameSet
import WhileLang.Operator
import WhileLang.Text.Quoted

/-!
# Expressions

An expression is a variable, a literal or a binary operation.  Operators have no
precedence and nest to the right, so an operation needs parentheses only where it
is the left operand of another one; `Expr.render` writes exactly those.  How deep an
expression is nested is not limited.
-/

namespace WhileLang

inductive Expr where
  | var (name : String)
  | lit (value : Value)
  | bin (op : Operator) (left right : Expr)
  deriving DecidableEq

namespace Expr

def isBin : Expr → Bool
  | .bin .. => true
  | _ => false

/-- The expression as a program writes it. -/
def render : Expr → String
  | .var name => name
  | .lit value => value.render
  | .bin op left right =>
    (if left.isBin then "(" ++ left.render ++ ")" else left.render)
      ++ " " ++ op.symbol ++ " " ++ right.render

def debug : Expr → String
  | .var name => "Var(name=" ++ quoted name ++ ")"
  | .lit value => "Literal(value=" ++ value.debug ++ ")"
  | .bin op left right =>
    "BinaryOp(op=" ++ op.debug ++ ", left=" ++ left.debug ++ ", right=" ++ right.debug ++ ")"

def label : Expr → String
  | .var _ => "Var"
  | .lit _ => "Literal"
  | .bin .. => "BinaryOp"

/-- The variables that evaluation may look up. -/
def reads : Expr → NameSet
  | .var name => .singleton name
  | .lit _ => ∅
  | .bin _ left right => left.reads ∪ right.reads

/-- A number for tables that are searched by expression; equal expressions have equal numbers. -/
def hashCode : Expr → UInt64
  | .var name => mixHash 11 (hash name)
  | .lit (.int n) => mixHash 13 (hash n)
  | .lit (.bool b) => mixHash 17 (hash b)
  | .bin op left right => mixHash (hash op.name) (mixHash left.hashCode right.hashCode)

end Expr

end WhileLang
