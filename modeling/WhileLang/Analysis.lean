import WhileLang.Stmt.Printer

/-!
# Definite assignment

The analysis of a statement is two sets of names.  `exposed` holds the names that the
statement may read before it has written them itself; `defined` holds those that are
bound whenever the statement comes to its end.  Only one side of a branch runs, so a
branch defines what both sides define; the body of a loop may not run at all, so a
loop defines nothing.

`Analysis.extend` goes through a chain once and carries the analysis of what came
before: a later statement exposes only what is not yet defined.
-/

namespace WhileLang

/-- What a statement reads before writing, and what it surely writes. -/
@[ext] structure Analysis where
  exposed : NameSet
  defined : NameSet
  deriving DecidableEq

namespace Analysis

def nothing : Analysis := ⟨∅, ∅⟩

/-- The analysis of what came before, followed by a statement that is analysed by itself. -/
def andThen (before after : Analysis) : Analysis :=
  ⟨before.exposed ∪ (after.exposed \ before.defined), before.defined ∪ after.defined⟩

def extend (before : Analysis) : Stmt → Analysis
  | .skip => before
  | .assign name expr => before.andThen ⟨expr.reads, .singleton name⟩
  | .branch cond yes no =>
    let y := nothing.extend yes
    let n := nothing.extend no
    before.andThen ⟨cond.reads ∪ y.exposed ∪ n.exposed, y.defined ∩ n.defined⟩
  | .loop cond body => before.andThen ⟨cond.reads ∪ (nothing.extend body).exposed, ∅⟩
  | .seq first second => (before.extend first).extend second

/-- Whether a statement with this analysis reads no name before writing it. -/
def isSafe (a : Analysis) : Bool := a.exposed.isEmpty

end Analysis

def Stmt.analyze (s : Stmt) : Analysis := Analysis.nothing.extend s

/-- The names that the statement may read unbound when those of `bound` are bound already. -/
def Stmt.exposedFrom (s : Stmt) (bound : NameSet) : NameSet := s.analyze.exposed \ bound

def NameSet.debug (s : NameSet) : String :=
  "[" ++ ", ".intercalate (s.names.map quoted) ++ "]"

def Analysis.describe (a : Analysis) : String :=
  "unsafe=" ++ a.exposed.debug ++ ", defined=" ++ a.defined.debug

/-- A line for each top-level statement, and a last line with the verdict on the program. -/
def Stmt.report (s : Stmt) : List String :=
  s.flatten.map (fun t => t.render ++ ": " ++ t.analyze.describe) ++
    ["Program: " ++ s.analyze.describe ++ " -> " ++ (if s.analyze.isSafe then "safe" else "UNSAFE")]

end WhileLang
