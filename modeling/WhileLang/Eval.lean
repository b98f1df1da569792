import WhileLang.Stmt.Printer
import WhileLang.Store

/-!
# Evaluation of expressions

Operands are evaluated from left to right, both before their operation.  Two things
can go wrong: a variable has no binding, or an operation gets operands it has no
value for.  A failed operation is kept with the operation itself, and with the
statement whose expression was being evaluated when there is one.
-/

namespace WhileLang

structure Failure where
  cause : OperandError
  /-- The operation itself. -/
  blamed : Expr
  /-- The statement whose expression was being evaluated. -/
  stmt : Option Stmt
  deriving DecidableEq

inductive RunError where
  | unbound (name : String)
  | failed (failure : Failure)
  deriving DecidableEq

/-- The wording of a failure: its text, then the expression and the statement it happened in. -/
def placed (text : String) (expression statement : Option String) : String :=
  text
    ++ (match expression with
        | some e => " in " ++ inQuotes e
        | none => "")
    ++ (match statement with
        | some s => " while running " ++ inQuotes s
        | none => "")

def Failure.message (f : Failure) : String :=
  placed f.cause.message (some f.blamed.render) (f.stmt.map Stmt.render)

def RunError.message : RunError → String
  | .unbound name => "variable " ++ inQuotes name ++ " read before assignment"
  | .failed failure => failure.message

def Store.lookup (st : Store) (name : String) : Except RunError Value :=
  match st.lookup? name with
  | some value => .ok value
  | none => .error (.unbound name)

def Expr.eval (st : Store) : Expr → Except RunError Value
  | .var name => st.lookup name
  | .lit value => .ok value
  | .bin op left right =>
    match left.eval st with
    | .error e => .error e
    | .ok a =>
      match right.eval st with
      | .error e => .error e
      | .ok b =>
        match op.apply a b with
        | .error cause => .error (.failed ⟨cause, .bin op left right, none⟩)
        | .ok value => .ok value

/-- Names the statement in a failure that names none. -/
def RunError.during (s : Stmt) : RunError → RunError
  | .unbound name => .unbound name
  | .failed failure => .failed { failure with stmt := failure.stmt.or (some s) }

/-- The value of an expression that belongs to the statement `s`. -/
def Stmt.eval (s : Stmt) (st : Store) (e : Expr) : Except RunError Value :=
  (e.eval st).mapError (RunError.during s)

end WhileLang
