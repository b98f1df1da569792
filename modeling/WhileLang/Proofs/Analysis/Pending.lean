import WhileLang.Analysis.Rules
import WhileLang.Proofs.Run.Step

/-!
# The analysis of what is left of a run

What is left of a run is a list of statements, and `Analysis.ofAll` is the analysis of such
a list, one statement after another.  `ofAll_cons` and `ofAll_append` take it apart.

A run meets a loop again and again, and one side of a branch only, while the analysis looks
at each once.  That this does no harm is a matter of single steps.
`Step.mem_exposed` says that a step exposes no name that was not exposed before it, unless
it has just bound that name.  `Step.mem_defined` says that a step loses no name that was
defined before it, unless it has just bound that name.  Both hold for each form of statement
by the equations of `Stmt.analyze`.
-/

namespace WhileLang

/-! ### Following an analysis with another -/

namespace Analysis

@[simp] theorem not_mem_exposed_nothing (x : String) : ¬x ∈ nothing.exposed :=
  NameSet.not_mem_empty x

@[simp] theorem not_mem_defined_nothing (x : String) : ¬x ∈ nothing.defined :=
  NameSet.not_mem_empty x

@[simp] theorem mem_exposed_andThen {x : String} {a b : Analysis} :
    x ∈ (a.andThen b).exposed ↔ x ∈ a.exposed ∨ (x ∈ b.exposed ∧ ¬x ∈ a.defined) := by
  rw [andThen, NameSet.mem_union, NameSet.mem_diff]

@[simp] theorem mem_defined_andThen {x : String} {a b : Analysis} :
    x ∈ (a.andThen b).defined ↔ x ∈ a.defined ∨ x ∈ b.defined := by
  rw [andThen, NameSet.mem_union]

end Analysis

/-! ### The forms of statement -/

namespace Stmt

theorem analyze_eq_byRules (s : Stmt) : s.analyze = s.byRules := by
  rw [analyze, Analysis.extend_eq_andThen_byRules, Analysis.nothing_andThen]

theorem analyze_skip : skip.analyze = Analysis.nothing := rfl

theorem analyze_assign (name : String) (expr : Expr) :
    (assign name expr).analyze = ⟨expr.reads, .singleton name⟩ :=
  analyze_eq_byRules (assign name expr)

theorem analyze_branch (cond : Expr) (yes no : Stmt) :
    (branch cond yes no).analyze =
      ⟨cond.reads ∪ yes.analyze.exposed ∪ no.analyze.exposed,
        yes.analyze.defined ∩ no.analyze.defined⟩ := by
  rw [analyze_eq_byRules, analyze_eq_byRules yes, analyze_eq_byRules no, byRules]

theorem analyze_loop (cond : Expr) (body : Stmt) :
    (loop cond body).analyze = ⟨cond.reads ∪ body.analyze.exposed, ∅⟩ := by
  rw [analyze_eq_byRules, analyze_eq_byRules body, byRules]

theorem analyze_seq (first second : Stmt) :
    (seq first second).analyze = first.analyze.andThen second.analyze := by
  rw [analyze_eq_byRules, analyze_eq_byRules first, analyze_eq_byRules second]
  rfl

theorem mem_exposed_of_subject {s : Stmt} {expr : Expr} {x : String}
    (hs : s.subject? = some expr) (hx : x ∈ expr.reads) : x ∈ s.analyze.exposed := by
  cases s with
  | skip => cases hs
  | seq => cases hs
  | assign => cases hs; rw [analyze_assign]; exact hx
  | branch cond yes no =>
    cases hs
    rw [analyze_branch, NameSet.mem_union, NameSet.mem_union]
    exact Or.inl (Or.inl hx)
  | loop cond body =>
    cases hs
    rw [analyze_loop, NameSet.mem_union]
    exact Or.inl hx

end Stmt

/-! ### Lists of statements -/

namespace Analysis

def ofAll (pending : List Stmt) : Analysis := pending.foldl extend nothing

theorem extend_eq_andThen (before : Analysis) (s : Stmt) :
    before.extend s = before.andThen s.analyze := by
  rw [extend_eq_andThen_byRules, s.analyze_eq_byRules]

@[simp] theorem ofAll_nil : ofAll [] = nothing := rfl

theorem foldl_extend (before : Analysis) (pending : List Stmt) :
    pending.foldl extend before = before.andThen (ofAll pending) := by
  induction pending generalizing before with
  | nil => exact (andThen_nothing before).symm
  | cons s pending ih =>
    have htail : ofAll (s :: pending) = s.analyze.andThen (ofAll pending) := by
      rw [ofAll, List.foldl_cons, ih, extend_eq_andThen, nothing_andThen]
    rw [List.foldl_cons, ih, extend_eq_andThen, htail, andThen_assoc]

theorem ofAll_cons (s : Stmt) (pending : List Stmt) :
    ofAll (s :: pending) = s.analyze.andThen (ofAll pending) := by
  rw [ofAll, List.foldl_cons, foldl_extend, extend_eq_andThen, nothing_andThen]

theorem ofAll_append (pending rest : List Stmt) :
    ofAll (pending ++ rest) = (ofAll pending).andThen (ofAll rest) := by
  rw [ofAll, List.foldl_append, foldl_extend]
  rfl

theorem ofAll_singleton (s : Stmt) : ofAll [s] = s.analyze := by
  rw [ofAll_cons, ofAll_nil, andThen_nothing]

end Analysis

/-! ### Steps -/

open Analysis

/-- A step leaves nothing exposed that was not exposed before, but for what it binds. -/
theorem Step.mem_exposed {s : Stmt} {st : Store} {made : List (String × Value)}
    {left pending : List Stmt} {x : String} (h : Step s st made left)
    (hx : x ∈ (ofAll (left ++ pending)).exposed) :
    x ∈ (ofAll (s :: pending)).exposed ∨ x ∈ made.map Prod.fst := by
  cases h with
  | skip => exact Or.inl (by rwa [ofAll_cons, Stmt.analyze_skip, nothing_andThen])
  | @assign name expr _ value _ =>
    by_cases hn : x = name
    · exact Or.inr (by simp [hn])
    · left
      rw [ofAll_cons, Stmt.analyze_assign]
      simp only [List.nil_append] at hx
      simp [hx, hn]
  | branchYes yes no =>
    left
    rw [List.singleton_append, ofAll_cons] at hx
    rw [ofAll_cons, Stmt.analyze_branch]
    simp only [mem_exposed_andThen, NameSet.mem_union, NameSet.mem_inter] at hx ⊢
    rcases hx with hx | ⟨hx, hd⟩
    · exact Or.inl (Or.inl (Or.inr hx))
    · exact Or.inr ⟨hx, fun hb => hd hb.1⟩
  | branchNo yes no =>
    left
    rw [List.singleton_append, ofAll_cons] at hx
    rw [ofAll_cons, Stmt.analyze_branch]
    simp only [mem_exposed_andThen, NameSet.mem_union, NameSet.mem_inter] at hx ⊢
    rcases hx with hx | ⟨hx, hd⟩
    · exact Or.inl (Or.inr hx)
    · exact Or.inr ⟨hx, fun hb => hd hb.2⟩
  | loopNext body =>
    -- the body exposes what the loop does, and the loop comes again
    left
    rw [List.cons_append, List.singleton_append, ofAll_cons, ofAll_cons] at hx
    rw [ofAll_cons, Stmt.analyze_loop]
    rw [Stmt.analyze_loop] at hx
    simp only [mem_exposed_andThen, NameSet.mem_union, NameSet.not_mem_empty, not_false_eq_true,
      and_true] at hx ⊢
    rcases hx with hx | ⟨hx, _⟩
    · exact Or.inl (Or.inr hx)
    · exact hx
  | loopEnds body =>
    left
    rw [ofAll_cons, Stmt.analyze_loop]
    simp only [mem_exposed_andThen, NameSet.not_mem_empty, not_false_eq_true, and_true]
    exact Or.inr hx
  | seq first second =>
    left
    rw [ofAll_cons, Stmt.analyze_seq, andThen_assoc, ← ofAll_cons, ← ofAll_cons]
    exact hx

/-- What a statement defines is bound by its next step, or defined by what that step leaves. -/
theorem Step.mem_defined_left {s : Stmt} {st : Store} {made : List (String × Value)}
    {left : List Stmt} {x : String} (h : Step s st made left) (hx : x ∈ s.analyze.defined) :
    x ∈ made.map Prod.fst ∨ x ∈ (ofAll left).defined := by
  cases h with
  | skip => exact absurd hx (not_mem_defined_nothing x)
  | assign =>
    rw [Stmt.analyze_assign, NameSet.mem_singleton] at hx
    exact Or.inl (by simp [hx])
  | branchYes yes no =>
    rw [Stmt.analyze_branch, NameSet.mem_inter] at hx
    rw [ofAll_singleton]
    exact Or.inr hx.1
  | branchNo yes no =>
    rw [Stmt.analyze_branch, NameSet.mem_inter] at hx
    rw [ofAll_singleton]
    exact Or.inr hx.2
  | loopNext body =>
    rw [Stmt.analyze_loop] at hx
    exact absurd hx (NameSet.not_mem_empty x)
  | loopEnds body =>
    rw [Stmt.analyze_loop] at hx
    exact absurd hx (NameSet.not_mem_empty x)
  | seq first second =>
    rw [Stmt.analyze_seq] at hx
    rw [ofAll_cons, ofAll_singleton]
    exact Or.inr hx

/-- A step loses nothing that was defined before, but for what it binds. -/
theorem Step.mem_defined {s : Stmt} {st : Store} {made : List (String × Value)}
    {left pending : List Stmt} {x : String} (h : Step s st made left)
    (hx : x ∈ (ofAll (s :: pending)).defined) :
    x ∈ made.map Prod.fst ∨ x ∈ (ofAll (left ++ pending)).defined := by
  rw [ofAll_cons, mem_defined_andThen] at hx
  rw [ofAll_append, mem_defined_andThen]
  rcases hx with hx | hx
  · rcases h.mem_defined_left hx with hm | hl
    · exact Or.inl hm
    · exact Or.inr (Or.inl hl)
  · exact Or.inr (Or.inr hx)

end WhileLang
