import WhileLang.Run
import WhileLang.Proofs.Store.Prepend

/-!
# The steps of a run

`runAll` takes the first pending statement and either goes on with others in its place or
stops.  `Step` lists all the ways to go on: a step puts some bindings in front of the store
and leaves statements in place of the one it took.  `Stops` is the one way to stop, an
expression that has no value.  A statement in a store does exactly one of the two
(`Stmt.step_or_stops`).

`Runs` is a run as a chain of such steps, and `runs_iff_runAll` says that it is what
`runAll` computes.  So a fact about all runs needs a look at the steps only, once for each
form of statement, and an induction over `Runs`.
-/

namespace WhileLang

/-- The expression that a statement evaluates before anything else. -/
def Stmt.subject? : Stmt → Option Expr
  | .skip => none
  | .assign _ expr => some expr
  | .branch cond _ _ => some cond
  | .loop cond _ => some cond
  | .seq _ _ => none

/-- In the store, one step of the statement makes the bindings and leaves the statements. -/
inductive Step : Stmt → Store → List (String × Value) → List Stmt → Prop
  | skip (st : Store) : Step .skip st [] []
  | assign {name : String} {expr : Expr} {st : Store} {value : Value}
      (he : (Stmt.assign name expr).eval st expr = .ok value) :
      Step (.assign name expr) st [(name, value)] []
  | branchYes {cond : Expr} {st : Store} {value : Value} (yes no : Stmt)
      (hc : (Stmt.branch cond yes no).eval st cond = .ok value) (hv : value.holds = true) :
      Step (.branch cond yes no) st [] [yes]
  | branchNo {cond : Expr} {st : Store} {value : Value} (yes no : Stmt)
      (hc : (Stmt.branch cond yes no).eval st cond = .ok value) (hv : value.holds = false) :
      Step (.branch cond yes no) st [] [no]
  | loopNext {cond : Expr} {st : Store} {value : Value} (body : Stmt)
      (hc : (Stmt.loop cond body).eval st cond = .ok value) (hv : value.holds = true) :
      Step (.loop cond body) st [] [body, .loop cond body]
  | loopEnds {cond : Expr} {st : Store} {value : Value} (body : Stmt)
      (hc : (Stmt.loop cond body).eval st cond = .ok value) (hv : value.holds = false) :
      Step (.loop cond body) st [] []
  | seq (first second : Stmt) (st : Store) : Step (.seq first second) st [] [first, second]

/-- In the store, the expression of the statement has no value. -/
def Stops (s : Stmt) (st : Store) (e : RunError) : Prop :=
  ∃ expr, s.subject? = some expr ∧ s.eval st expr = .error e

/-- A statement goes on or stops, whatever the store. -/
theorem Stmt.step_or_stops (s : Stmt) (st : Store) :
    (∃ made left, Step s st made left) ∨ ∃ e, Stops s st e := by
  cases s with
  | skip => exact Or.inl ⟨[], [], .skip st⟩
  | seq first second => exact Or.inl ⟨[], [first, second], .seq first second st⟩
  | assign name expr =>
    cases he : (Stmt.assign name expr).eval st expr with
    | error e => exact Or.inr ⟨e, expr, rfl, he⟩
    | ok value => exact Or.inl ⟨_, _, .assign he⟩
  | branch cond yes no =>
    cases hc : (Stmt.branch cond yes no).eval st cond with
    | error e => exact Or.inr ⟨e, cond, rfl, hc⟩
    | ok value =>
      cases hv : value.holds with
      | true => exact Or.inl ⟨_, _, .branchYes yes no hc hv⟩
      | false => exact Or.inl ⟨_, _, .branchNo yes no hc hv⟩
  | loop cond body =>
    cases hc : (Stmt.loop cond body).eval st cond with
    | error e => exact Or.inr ⟨e, cond, rfl, hc⟩
    | ok value =>
      cases hv : value.holds with
      | true => exact Or.inl ⟨_, _, .loopNext body hc hv⟩
      | false => exact Or.inl ⟨_, _, .loopEnds body hc hv⟩

/-- A statement that goes on hands over to what it leaves, in front of what was pending. -/
theorem runAll_of_step {s : Stmt} {st : Store} {made : List (String × Value)} {left : List Stmt}
    (h : Step s st made left) (n : Nat) (pending : List Stmt) :
    runAll (n + 1) (s :: pending) st = runAll n (left ++ pending) (st.prepend made) := by
  cases h with
  | skip => rfl
  | seq => rfl
  | assign he => rw [runAll, he]; rfl
  | branchYes yes no hc hv =>
    rw [runAll, hc]
    show runAll n ((if _ then yes else no) :: pending) st = _
    rw [if_pos hv]; rfl
  | branchNo yes no hc hv =>
    rw [runAll, hc]
    show runAll n ((if _ then yes else no) :: pending) st = _
    rw [hv]; rfl
  | loopNext body hc hv =>
    rw [runAll, hc]
    show (if _ then _ else _) = _
    rw [if_pos hv]; rfl
  | loopEnds body hc hv =>
    rw [runAll, hc]
    show (if _ then _ else _) = _
    rw [hv]; rfl

theorem runAll_of_stops {s : Stmt} {st : Store} {e : RunError} (h : Stops s st e) (n : Nat)
    (pending : List Stmt) : runAll (n + 1) (s :: pending) st = some (.stopped e) := by
  obtain ⟨expr, hs, he⟩ := h
  cases s with
  | skip => cases hs
  | seq => cases hs
  | assign => cases hs; rw [runAll, he]
  | branch => cases hs; rw [runAll, he]
  | loop => cases hs; rw [runAll, he]

/-! ### Runs -/

/-- Within the budget, the pending statements started in the store come to the outcome. -/
inductive Runs : Nat → List Stmt → Store → Outcome → Prop
  | finished (n : Nat) (st : Store) : Runs n [] st (.finished st)
  | stopped {s : Stmt} {st : Store} {e : RunError} (n : Nat) (pending : List Stmt)
      (h : Stops s st e) : Runs (n + 1) (s :: pending) st (.stopped e)
  | step {n : Nat} {s : Stmt} {st : Store} {made : List (String × Value)} {left : List Stmt}
      {pending : List Stmt} {o : Outcome} (h : Step s st made left)
      (hr : Runs n (left ++ pending) (st.prepend made) o) : Runs (n + 1) (s :: pending) st o

theorem Runs.of_runAll {n : Nat} {pending : List Stmt} {st : Store} {o : Outcome}
    (h : runAll n pending st = some o) : Runs n pending st o := by
  induction n generalizing pending st with
  | zero =>
    cases pending with
    | nil => cases h; exact .finished 0 st
    | cons s pending => cases h
  | succ n ih =>
    cases pending with
    | nil => cases h; exact .finished (n + 1) st
    | cons s pending =>
      rcases s.step_or_stops st with ⟨made, left, hs⟩ | ⟨e, he⟩
      · rw [runAll_of_step hs] at h
        exact .step hs (ih h)
      · rw [runAll_of_stops he] at h
        cases h
        exact .stopped n pending he

theorem Runs.runAll_eq {n : Nat} {pending : List Stmt} {st : Store} {o : Outcome}
    (h : Runs n pending st o) : runAll n pending st = some o := by
  induction h with
  | finished n st => cases n <;> rfl
  | stopped n pending h => exact runAll_of_stops h n pending
  | step h _ ih => rw [runAll_of_step h, ih]

theorem runs_iff_runAll {n : Nat} {pending : List Stmt} {st : Store} {o : Outcome} :
    Runs n pending st o ↔ runAll n pending st = some o :=
  ⟨Runs.runAll_eq, Runs.of_runAll⟩

theorem Stmt.runs_iff_run {s : Stmt} {n : Nat} {st : Store} {o : Outcome} :
    Runs n [s] st o ↔ s.run n st = some o := runs_iff_runAll

end WhileLang
