import WhileLang.Interpret
import WhileLang.Proofs.Analysis.Soundness
import WhileLang.Proofs.Run.Ends

/-!
# Traces and runs

A trace and a run go side by side up to the first failure.  There the run stops, and the trace
goes on from the store before the statement that failed.  So the outcome of the run can be read
off the trace (`Stmt.run_of_trace`), and a failure at an unbound name is one that the trace has
announced.  What stands behind a failure may diverge, and then there is no trace; but a run that
comes to its end always has one (`Stmt.exists_trace`).
-/

namespace WhileLang

/-- The outcome of a run that has the trace: its first failure, or else its last store. -/
def Outcome.ofTrace (st : Store) : List TraceStep → Outcome
  | [] => .finished st
  | step :: later =>
    match step.outcome with
    | .finished st' => ofTrace st' later
    | .stopped e => .stopped e

theorem traceFrom_cons_eq_some {n : Nat} {s : Stmt} {pending : List Stmt} {st : Store}
    {steps : List TraceStep} :
    traceFrom n st (s :: pending) = some steps ↔
      ∃ o later, s.run n st = some o ∧ traceFrom n (o.after st) pending = some later ∧
        steps = ⟨s, s.exposedFrom st.keys, o⟩ :: later := by
  simp only [traceFrom, Option.bind_eq_bind, Option.bind_eq_some_iff, Option.pure_def,
    Option.some.injEq, exists_and_left, @eq_comm _ _ steps]

theorem map_stmt_of_traceFrom {n : Nat} {pending : List Stmt} {st : Store}
    {steps : List TraceStep} (h : traceFrom n st pending = some steps) :
    steps.map TraceStep.stmt = pending := by
  induction pending generalizing st steps with
  | nil => cases h; rfl
  | cons s pending ih =>
    obtain ⟨o, later, -, hlater, rfl⟩ := traceFrom_cons_eq_some.mp h
    rw [List.map_cons, ih hlater]

theorem ends_of_traceFrom {n : Nat} {pending : List Stmt} {st : Store} {steps : List TraceStep}
    (h : traceFrom n st pending = some steps) : Ends pending st (Outcome.ofTrace st steps) := by
  induction pending generalizing st steps with
  | nil => cases h; exact .nil st
  | cons s pending ih =>
    obtain ⟨o, later, hs, hlater, rfl⟩ := traceFrom_cons_eq_some.mp h
    have hends : Ends [s] st o := Stmt.ends_iff_run.mpr ⟨n, hs⟩
    rw [ends_cons_iff]
    cases o with
    | finished st' => exact Or.inl ⟨st', hends, ih hlater⟩
    | stopped e => exact Or.inr ⟨e, rfl, hends⟩

/-- A statement of a trace that stops at an unbound name has it among the names it may read
unbound. -/
theorem mem_unbound_of_traceFrom {n : Nat} {pending : List Stmt} {st : Store}
    {steps : List TraceStep} (h : traceFrom n st pending = some steps) {step : TraceStep}
    (hstep : step ∈ steps) {x : String} (hx : step.outcome = .stopped (.unbound x)) :
    x ∈ step.unbound := by
  induction pending generalizing st steps with
  | nil => cases h; cases hstep
  | cons s pending ih =>
    obtain ⟨o, later, hs, hlater, rfl⟩ := traceFrom_cons_eq_some.mp h
    rcases List.mem_cons.mp hstep with rfl | hstep
    · cases hx
      obtain ⟨hexposed, hnone⟩ := (Stmt.runs_iff_run.mpr hs).unbound_mem_exposed
      rw [Analysis.ofAll_singleton] at hexposed
      exact NameSet.mem_diff.mpr ⟨hexposed, Store.not_mem_keys_iff.mpr hnone⟩
    · exact ih hlater hstep

theorem traceFrom_mono {n m : Nat} {pending : List Stmt} {st : Store} {steps : List TraceStep}
    (h : traceFrom n st pending = some steps) (hnm : n ≤ m) :
    traceFrom m st pending = some steps := by
  induction pending generalizing st steps with
  | nil => exact h
  | cons s pending ih =>
    obtain ⟨o, later, hs, hlater, rfl⟩ := traceFrom_cons_eq_some.mp h
    exact traceFrom_cons_eq_some.mpr ⟨o, later, Stmt.run_mono hs hnm, ih hlater, rfl⟩

theorem Ends.exists_traceFrom {pending : List Stmt} {st st' : Store}
    (h : Ends pending st (.finished st')) : ∃ n steps, traceFrom n st pending = some steps := by
  induction pending generalizing st with
  | nil => exact ⟨0, [], rfl⟩
  | cons s pending ih =>
    obtain ⟨mid, hs, hlater⟩ := ends_cons_finished_iff.mp h
    obtain ⟨n, hn⟩ := Stmt.ends_iff_run.mp hs
    obtain ⟨m, later, hm⟩ := ih hlater
    have hfirst := Stmt.run_mono hn (Nat.le_max_left n m)
    have hrest := traceFrom_mono hm (Nat.le_max_right n m)
    exact ⟨max n m, _, traceFrom_cons_eq_some.mpr ⟨.finished mid, later, hfirst, hrest, rfl⟩⟩

/-- A trace of a statement takes its top-level statements in order, tells the outcome of its run,
and announces every failure at an unbound name. -/
theorem Stmt.run_of_trace {s : Stmt} {n : Nat} {st : Store} {steps : List TraceStep}
    (h : s.trace n st = some steps) :
    steps.map TraceStep.stmt = s.flatten ∧
    (∀ o, (∃ m, s.run m st = some o) ↔ o = Outcome.ofTrace st steps) ∧
    ∀ step ∈ steps, ∀ x, step.outcome = .stopped (.unbound x) → x ∈ step.unbound := by
  have hends : Ends [s] st (Outcome.ofTrace st steps) := ends_flatten_iff.mp (ends_of_traceFrom h)
  refine ⟨map_stmt_of_traceFrom h, fun o => ?_,
    fun step hstep x hx => mem_unbound_of_traceFrom h hstep hx⟩
  rw [← ends_iff_run]
  constructor
  · intro ho
    exact ho.unique hends
  · rintro rfl
    exact hends

theorem Stmt.exists_trace {s : Stmt} {n : Nat} {st st' : Store}
    (h : s.run n st = some (.finished st')) : ∃ m steps, s.trace m st = some steps :=
  (ends_flatten_iff.mpr (ends_iff_run.mpr ⟨n, h⟩)).exists_traceFrom

end WhileLang
