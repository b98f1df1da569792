import WhileLang.Stmt

/-!
# The texts of a statement

`Stmt.render` is the text that reads back as the program: the top-level statements
of a chain, separated by semicolons, whatever the nesting.  `Stmt.debug` is the text
that shows the nesting: each `seq` opens with its first statement, and all its
parentheses close at the end of the chain.
-/

namespace WhileLang

namespace Stmt

def render : Stmt → String
  | .skip => "skip"
  | .assign name expr => name ++ " := " ++ expr.render
  | .branch cond yes no =>
    "if " ++ cond.render ++ " then " ++ yes.render ++ " else " ++ no.render ++ " endif"
  | .loop cond body => "while " ++ cond.render ++ " do " ++ body.render ++ " endwhile"
  | .seq first second => first.render ++ "; " ++ second.render

/-- The statement with all its constructors and field names, then `closing` parentheses
that belong to the chain it ends. -/
def debugClosing (closing : Nat) : Stmt → String
  | .skip => "Skip()" ++ parens closing
  | .assign name expr =>
    "Assign(name=" ++ quoted name ++ ", expr=" ++ expr.debug ++ ")" ++ parens closing
  | .branch cond yes no =>
    "If(cond=" ++ cond.debug ++ ", then=" ++ yes.debugClosing 0 ++ ", els=" ++ no.debugClosing 0
      ++ ")" ++ parens closing
  | .loop cond body =>
    "While(cond=" ++ cond.debug ++ ", body=" ++ body.debugClosing 0 ++ ")" ++ parens closing
  | .seq first second =>
    "Sequence(first=" ++ first.debugClosing 0 ++ ", second=" ++ second.debugClosing (closing + 1)
where
  /-- A run of closing parentheses. -/
  parens (n : Nat) : String := String.ofList (List.replicate n ')')

def debug (s : Stmt) : String := s.debugClosing 0

def label : Stmt → String
  | .skip => "Skip"
  | .assign .. => "Assign"
  | .branch .. => "If"
  | .loop .. => "While"
  | .seq .. => "Sequence"

end Stmt

end WhileLang
