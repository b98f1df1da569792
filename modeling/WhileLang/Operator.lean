import WhileLang.Value

/-!
# Binary operators

Four operators compute an integer and four compare two integers.  All eight want
two integers; given anything else they fail and name the kinds they got, and this
failure comes before a division by zero.  Division drops the fraction, so the
quotient lies between zero and the exact one.
-/

namespace WhileLang

inductive Operator where
  | plus
  | minus
  | times
  | divide
  | gt
  | ge
  | lt
  | le
  deriving DecidableEq

inductive OperandError where
  /-- One of the operands is a boolean. -/
  | kinds (op : Operator) (left right : Kind)
  /-- The divisor is zero. -/
  | divisionByZero
  deriving DecidableEq

namespace Operator

def symbol : Operator → String
  | .plus => "+"
  | .minus => "-"
  | .times => "*"
  | .divide => "/"
  | .gt => ">"
  | .ge => ">="
  | .lt => "<"
  | .le => "<="

/-- The name of the operator, which is also the name of its token. -/
def name : Operator → String
  | .plus => "PLUS"
  | .minus => "MINUS"
  | .times => "TIMES"
  | .divide => "DIVIDE"
  | .gt => "GT"
  | .ge => "GE"
  | .lt => "LT"
  | .le => "LE"

def debug (op : Operator) : String := "Bop." ++ op.name

def all : List Operator := [.plus, .minus, .times, .divide, .gt, .ge, .lt, .le]

def ofSymbol? (symbol : String) : Option Operator :=
  all.find? fun op => op.symbol == symbol

def applyInt (op : Operator) (m n : Int) : Except OperandError Value :=
  match op with
  | .plus => .ok (.int (m + n))
  | .minus => .ok (.int (m - n))
  | .times => .ok (.int (m * n))
  | .divide => if n = 0 then .error .divisionByZero else .ok (.int (m.tdiv n))
  | .gt => .ok (.bool (decide (m > n)))
  | .ge => .ok (.bool (decide (m ≥ n)))
  | .lt => .ok (.bool (decide (m < n)))
  | .le => .ok (.bool (decide (m ≤ n)))

def apply (op : Operator) (left right : Value) : Except OperandError Value :=
  match left, right with
  | .int m, .int n => op.applyInt m n
  | left, right => .error (.kinds op left.kind right.kind)

theorem ofSymbol?_symbol (op : Operator) : ofSymbol? op.symbol = some op := by
  cases op <;> decide

end Operator

def OperandError.message : OperandError → String
  | .kinds op left right =>
    "operator '" ++ op.symbol ++ "' expects integer operands, got " ++ left.name ++ " and "
      ++ right.name
  | .divisionByZero => "division by zero"

end WhileLang
