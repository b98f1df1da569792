import WhileLang.Proofs.Run.BigStep
import WhileLang.Proofs.Run.Reads

/-!
# Total correctness

`Stmt.Establishes` says what a statement comes to from one store: it ends there, without an error,
and the store it ends with has a property.  It is shown along the statement, an assignment by the
value of its expression and a chain by its two parts in order.

A loop needs an invariant for each number of turns that may be left.  `Establishes.loop` asks what
one turn does: the condition has a value; if it holds, the body establishes the invariant for
fewer turns, and if it does not, the store has the property already.  The induction on the number
of turns is done once and for all.
-/

namespace WhileLang

/-- The statement, started in the store, comes to its end in a store with the property. -/
def Stmt.Establishes (s : Stmt) (st : Store) (Q : Store → Prop) : Prop :=
  ∃ st', BigStep s st (.finished st') ∧ Q st'

namespace Stmt.Establishes

variable {st : Store} {Q : Store → Prop}

theorem assign {name : String} {expr : Expr} {value : Value} (he : expr.eval st = .ok value)
    (hq : Q (st.update name value)) : (Stmt.assign name expr).Establishes st Q :=
  ⟨st.update name value, .assign (eval_of_ok he), hq⟩

theorem seq {first second : Stmt}
    (h : first.Establishes st fun mid => second.Establishes mid Q) :
    (Stmt.seq first second).Establishes st Q := by
  obtain ⟨mid, h1, st', h2, hq⟩ := h
  exact ⟨st', .seq h1 h2, hq⟩

/-- A loop comes to its end if every turn keeps an invariant for fewer turns than before. -/
theorem loop {cond : Expr} {body : Stmt} {I : Nat → Store → Prop}
    (hturn : ∀ k st, I k st → ∃ value, cond.eval st = .ok value ∧
      (value.holds = true → body.Establishes st fun st' => ∃ j < k, I j st') ∧
      (value.holds = false → Q st))
    {k : Nat} (h : I k st) : (Stmt.loop cond body).Establishes st Q := by
  induction k using Nat.strongRecOn generalizing st with
  | ind k ih =>
    obtain ⟨value, hvalue, hnext, hends⟩ := hturn k st h
    have hcond : (Stmt.loop cond body).eval st cond = .ok value := eval_of_ok hvalue
    cases hholds : value.holds with
    | true =>
      obtain ⟨mid, hbody, j, hj, hinv⟩ := hnext hholds
      obtain ⟨st', hloop, hq⟩ := ih j hj hinv
      exact ⟨st', .loopNext hcond hholds hbody hloop, hq⟩
    | false => exact ⟨st, .loopEnds hcond hholds, hends hholds⟩

/-- What a statement establishes it comes to in a run, whatever is left of the budget. -/
theorem exists_run {s : Stmt} (h : s.Establishes st Q) :
    ∃ st' n, (∀ more, s.run (n + more) st = some (.finished st')) ∧ Q st' := by
  obtain ⟨st', hs, hq⟩ := h
  obtain ⟨n, hn⟩ := ends_iff_run.mp (ends_iff_bigStep.mpr hs)
  exact ⟨st', n, fun more => run_mono hn (Nat.le_add_right n more), hq⟩

end Stmt.Establishes

end WhileLang
