import WhileLang.Analysis

/-!
# Paths

A path of a statement is what one run through it would read and write, in order, if its
conditions could come out either way: a branch may take both sides, a loop may run its
body any number of times.  Whether a name is read before it is written, or written at
all, can be asked of each path, and the analysis answers for all of them.

`Path.writes_of_mem_defined` is the first half of that: every path writes the names that
the analysis calls defined.
-/

namespace WhileLang

inductive Access where
  | read (name : String)
  | write (name : String)
  deriving DecidableEq

/-- The accesses of an expression, all of which are reads. -/
def Expr.accesses : Expr → List Access
  | .var name => [.read name]
  | .lit _ => []
  | .bin _ left right => left.accesses ++ right.accesses

/-- The accesses are those of one way through the statement. -/
inductive Path : Stmt → List Access → Prop
  | skip : Path .skip []
  | assign (name : String) (expr : Expr) :
      Path (.assign name expr) (expr.accesses ++ [.write name])
  | branchYes {cond : Expr} {yes no : Stmt} {p : List Access} (h : Path yes p) :
      Path (.branch cond yes no) (cond.accesses ++ p)
  | branchNo {cond : Expr} {yes no : Stmt} {p : List Access} (h : Path no p) :
      Path (.branch cond yes no) (cond.accesses ++ p)
  | loopEnds (cond : Expr) (body : Stmt) : Path (.loop cond body) cond.accesses
  | loopNext {cond : Expr} {body : Stmt} {p q : List Access} (h : Path body p)
      (hl : Path (.loop cond body) q) : Path (.loop cond body) (cond.accesses ++ p ++ q)
  | seq {first second : Stmt} {p q : List Access} (h1 : Path first p) (h2 : Path second q) :
      Path (.seq first second) (p ++ q)

/-- The accesses read the name at a place with no write of it in front. -/
def ReadsFirst (x : String) (p : List Access) : Prop :=
  ∃ before after, p = before ++ .read x :: after ∧ ¬Access.write x ∈ before

theorem Expr.read_mem_accesses_iff {x : String} {e : Expr} :
    Access.read x ∈ e.accesses ↔ x ∈ e.reads := by
  induction e with
  | var => simp [accesses, reads]
  | lit => simp [accesses, reads]
  | bin op left right ihl ihr => simp [accesses, reads, ihl, ihr]

theorem Expr.write_not_mem_accesses (x : String) (e : Expr) : ¬Access.write x ∈ e.accesses := by
  induction e with
  | var => simp [accesses]
  | lit => simp [accesses]
  | bin op left right ihl ihr => simp [accesses, ihl, ihr]

theorem Analysis.mem_defined_extend {x : String} (s : Stmt) (before : Analysis) :
    x ∈ (before.extend s).defined ↔ x ∈ before.defined ∨ x ∈ s.analyze.defined := by
  induction s generalizing before with
  | skip => simp [extend, Stmt.analyze, nothing]
  | assign name expr => simp [extend, Stmt.analyze, nothing, andThen]
  | branch cond yes no => simp [extend, Stmt.analyze, nothing, andThen]
  | loop cond body => simp [extend, Stmt.analyze, nothing, andThen]
  | seq first second ih1 ih2 =>
    show x ∈ ((before.extend first).extend second).defined ↔ _ ∨
      x ∈ ((nothing.extend first).extend second).defined
    rw [ih2, ih1, ih2 (nothing.extend first)]
    exact or_assoc

/-- Every path writes the defined names. -/
theorem Path.writes_of_mem_defined {x : String} {s : Stmt} {p : List Access} (h : Path s p)
    (hx : x ∈ s.analyze.defined) : Access.write x ∈ p := by
  induction h with
  | skip => simp [Stmt.analyze, Analysis.extend, Analysis.nothing] at hx
  | assign name expr =>
    simp [Stmt.analyze, Analysis.extend, Analysis.nothing, Analysis.andThen] at hx
    simp [hx]
  | branchYes _ ih =>
    simp only [Stmt.analyze, Analysis.extend, Analysis.nothing, Analysis.andThen,
      NameSet.mem_union, NameSet.not_mem_empty, NameSet.mem_inter, false_or] at hx
    exact List.mem_append_right _ (ih hx.1)
  | branchNo _ ih =>
    simp only [Stmt.analyze, Analysis.extend, Analysis.nothing, Analysis.andThen,
      NameSet.mem_union, NameSet.not_mem_empty, NameSet.mem_inter, false_or] at hx
    exact List.mem_append_right _ (ih hx.2)
  | loopEnds cond body =>
    simp [Stmt.analyze, Analysis.extend, Analysis.nothing, Analysis.andThen] at hx
  | loopNext _ _ _ _ =>
    simp [Stmt.analyze, Analysis.extend, Analysis.nothing, Analysis.andThen] at hx
  | @seq first second _ _ _ _ ih1 ih2 =>
    rcases (Analysis.mem_defined_extend second first.analyze).1 hx with hx | hx
    · exact List.mem_append_left _ (ih1 hx)
    · exact List.mem_append_right _ (ih2 hx)

end WhileLang
