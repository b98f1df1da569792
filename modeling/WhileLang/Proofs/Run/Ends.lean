import WhileLang.Proofs.Run.Step

/-!
# How a run ends

`Ends` forgets the budget of a run: the pending statements come to the outcome within some
budget.  A larger budget changes nothing (`Runs.mono`), so the outcome is the only one
(`Ends.unique`).

Statements that are pending together can be run one part after the other.
`ends_append_iff` says what becomes of two parts from what becomes of each, and
`Ends.exists_stopped` finds the one statement that a run stops in.  Since a `seq` only puts
its two statements on the list, neither nesting a chain (`ends_chain_iff`) nor flattening it
(`ends_flatten_iff`) makes a difference to a run.
-/

namespace WhileLang

/-! ### Budgets -/

theorem Runs.mono {n m : Nat} {pending : List Stmt} {st : Store} {o : Outcome}
    (h : Runs n pending st o) (hnm : n ≤ m) : Runs m pending st o := by
  induction h generalizing m with
  | finished n st => exact .finished m st
  | stopped n pending h =>
    obtain ⟨m, rfl⟩ := Nat.exists_eq_add_of_le' (Nat.le_trans (Nat.le_add_left 1 n) hnm)
    exact .stopped m pending h
  | step h _ ih =>
    obtain ⟨m, rfl⟩ := Nat.exists_eq_add_of_le' (Nat.le_trans (Nat.le_add_left 1 _) hnm)
    exact .step h (ih (Nat.le_of_succ_le_succ hnm))

theorem Runs.unique {n m : Nat} {pending : List Stmt} {st : Store} {o o' : Outcome}
    (h : Runs n pending st o) (h' : Runs m pending st o') : o = o' := by
  have hn := (h.mono (Nat.le_max_left n m)).runAll_eq
  have hm := (h'.mono (Nat.le_max_right n m)).runAll_eq
  rw [hn] at hm
  exact Option.some.inj hm

theorem Stmt.run_mono {s : Stmt} {n m : Nat} {st : Store} {o : Outcome}
    (h : s.run n st = some o) (hnm : n ≤ m) : s.run m st = some o :=
  runs_iff_run.mp ((runs_iff_run.mpr h).mono hnm)

/-! ### Outcomes -/

/-- The pending statements started in the store come to the outcome, within some budget. -/
def Ends (pending : List Stmt) (st : Store) (o : Outcome) : Prop := ∃ n, Runs n pending st o

theorem Stmt.ends_iff_run {s : Stmt} {st : Store} {o : Outcome} :
    Ends [s] st o ↔ ∃ n, s.run n st = some o :=
  exists_congr fun _ => runs_iff_run

theorem Ends.unique {pending : List Stmt} {st : Store} {o o' : Outcome}
    (h : Ends pending st o) (h' : Ends pending st o') : o = o' := by
  obtain ⟨_, hr⟩ := h
  obtain ⟨_, hr'⟩ := h'
  exact hr.unique hr'

theorem Ends.nil (st : Store) : Ends [] st (.finished st) := ⟨0, .finished 0 st⟩

theorem ends_nil_iff {st : Store} {o : Outcome} : Ends [] st o ↔ o = .finished st := by
  constructor
  · intro h
    exact h.unique (.nil st)
  · rintro rfl
    exact .nil st

/-- A statement that goes on hands over to what it leaves. -/
theorem ends_cons_iff_of_step {s : Stmt} {st : Store} {made : List (String × Value)}
    {left pending : List Stmt} {o : Outcome} (h : Step s st made left) :
    Ends (s :: pending) st o ↔ Ends (left ++ pending) (st.prepend made) o := by
  constructor
  · rintro ⟨n, hr⟩
    have hlater := (hr.mono (Nat.le_succ n)).runAll_eq
    rw [runAll_of_step h] at hlater
    exact ⟨n, .of_runAll hlater⟩
  · rintro ⟨n, hr⟩
    exact ⟨n + 1, .step h hr⟩

/-! ### One part after the other -/

theorem Runs.append {n : Nat} {first second : List Stmt} {st st' : Store} {o : Outcome}
    (h : Runs n first st (.finished st')) (h' : Ends second st' o) :
    Ends (first ++ second) st o := by
  generalize ho : Outcome.finished st' = o' at h
  induction h with
  | finished n st =>
    cases ho
    exact h'
  | stopped => cases ho
  | step h _ ih =>
    rw [List.cons_append, ends_cons_iff_of_step h, ← List.append_assoc]
    exact ih ho

theorem Runs.append_stopped {n : Nat} {first : List Stmt} {st : Store} {e : RunError}
    (h : Runs n first st (.stopped e)) (second : List Stmt) :
    Ends (first ++ second) st (.stopped e) := by
  generalize ho : Outcome.stopped e = o at h
  induction h with
  | finished => cases ho
  | stopped n pending h =>
    cases ho
    exact ⟨n + 1, .stopped n (pending ++ second) h⟩
  | step h _ ih =>
    rw [List.cons_append, ends_cons_iff_of_step h, ← List.append_assoc]
    exact ih ho

/-- A run of two parts comes through the first one, or stops in it. -/
theorem Runs.split {n : Nat} {first second : List Stmt} {st : Store} {o : Outcome}
    (h : Runs n (first ++ second) st o) :
    (∃ st', Ends first st (.finished st') ∧ Ends second st' o) ∨
      ∃ e, o = .stopped e ∧ Ends first st (.stopped e) := by
  generalize hp : first ++ second = pending at h
  induction h generalizing first with
  | finished n st =>
    obtain ⟨rfl, rfl⟩ := List.append_eq_nil_iff.mp hp
    exact Or.inl ⟨st, .nil st, .nil st⟩
  | @stopped s st e n pending h =>
    cases first with
    | nil =>
      subst hp
      exact Or.inl ⟨st, .nil st, n + 1, .stopped n pending h⟩
    | cons t first =>
      cases hp
      exact Or.inr ⟨e, rfl, n + 1, .stopped n first h⟩
  | @step n s st made left pending o h hr ih =>
    cases first with
    | nil =>
      subst hp
      exact Or.inl ⟨st, .nil st, n + 1, .step h hr⟩
    | cons t first =>
      cases hp
      simp only [ends_cons_iff_of_step h]
      exact ih (List.append_assoc left first second)

theorem ends_append_iff {first second : List Stmt} {st : Store} {o : Outcome} :
    Ends (first ++ second) st o ↔
      (∃ st', Ends first st (.finished st') ∧ Ends second st' o) ∨
        ∃ e, o = .stopped e ∧ Ends first st (.stopped e) := by
  constructor
  · rintro ⟨n, h⟩
    exact h.split
  · rintro (⟨st', ⟨n, h⟩, h'⟩ | ⟨e, rfl, n, h⟩)
    · exact h.append h'
    · exact h.append_stopped second

theorem ends_append_finished_iff {first second : List Stmt} {st st' : Store} :
    Ends (first ++ second) st (.finished st') ↔
      ∃ mid, Ends first st (.finished mid) ∧ Ends second mid (.finished st') := by
  rw [ends_append_iff]
  constructor
  · rintro (h | ⟨e, he, _⟩)
    · exact h
    · cases he
  · exact Or.inl

theorem ends_cons_iff {s : Stmt} {pending : List Stmt} {st : Store} {o : Outcome} :
    Ends (s :: pending) st o ↔
      (∃ st', Ends [s] st (.finished st') ∧ Ends pending st' o) ∨
        ∃ e, o = .stopped e ∧ Ends [s] st (.stopped e) :=
  @ends_append_iff [s] pending st o

theorem ends_cons_finished_iff {s : Stmt} {pending : List Stmt} {st st' : Store} :
    Ends (s :: pending) st (.finished st') ↔
      ∃ mid, Ends [s] st (.finished mid) ∧ Ends pending mid (.finished st') :=
  @ends_append_finished_iff [s] pending st st'

/-- Statements behind one that come to the same whatever the store may stand for each other. -/
theorem ends_cons_congr {s : Stmt} {pending pending' : List Stmt} {st : Store} {o : Outcome}
    (h : ∀ st, Ends pending st o ↔ Ends pending' st o) :
    Ends (s :: pending) st o ↔ Ends (s :: pending') st o := by
  rw [ends_cons_iff, @ends_cons_iff s pending']
  simp only [h]

/-- A run of some statements that stops does so in one of them, and comes through those
before it. -/
theorem Ends.exists_stopped {pending : List Stmt} {st : Store} {e : RunError}
    (h : Ends pending st (.stopped e)) :
    ∃ before s after st', pending = before ++ s :: after ∧ Ends before st (.finished st') ∧
      Ends [s] st' (.stopped e) := by
  induction pending generalizing st with
  | nil => cases ends_nil_iff.mp h
  | cons s pending ih =>
    rcases ends_cons_iff.mp h with ⟨st', hs, hlater⟩ | ⟨e', he, hs⟩
    · obtain ⟨before, t, after, last, rfl, hb, ht⟩ := ih hlater
      exact ⟨s :: before, t, after, last, rfl, ends_cons_finished_iff.mpr ⟨st', hs, hb⟩, ht⟩
    · cases he
      exact ⟨[], s, pending, st, rfl, .nil st, hs⟩

/-! ### Chains -/

theorem ends_seq_iff {first second : Stmt} {pending : List Stmt} {st : Store} {o : Outcome} :
    Ends (.seq first second :: pending) st o ↔ Ends (first :: second :: pending) st o :=
  ends_cons_iff_of_step (.seq first second st)

theorem ends_chain_iff {ss : List Stmt} {st : Store} {o : Outcome} :
    Ends [Stmt.chain ss] st o ↔ Ends ss st o := by
  induction ss using Stmt.chain.induct generalizing st with
  | case1 => exact ends_cons_iff_of_step (.skip st)
  | case2 s => exact Iff.rfl
  | case3 s rest hne ih =>
    rw [Stmt.chain, ends_seq_iff]
    · exact ends_cons_congr fun st => ih
    · exact hne

theorem ends_flattenAll_iff {pending : List Stmt} {st : Store} {o : Outcome} :
    Ends (Stmt.flattenAll pending) st o ↔ Ends pending st o := by
  induction pending using Stmt.flattenAll_induction generalizing st with
  | nil => rw [Stmt.flattenAll]
  | seq first second pending ih => rw [Stmt.flattenAll_cons_seq, ih, ends_seq_iff]
  | leaf s pending hs ih =>
    rw [Stmt.flattenAll_cons_of_not_isSeq hs, ends_cons_congr fun _ => ih]

theorem ends_flatten_iff {s : Stmt} {st : Store} {o : Outcome} :
    Ends s.flatten st o ↔ Ends [s] st o := ends_flattenAll_iff

end WhileLang
