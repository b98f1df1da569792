import WhileLang.Interpret
import WhileLang.Proofs.Analysis.Pending
import WhileLang.Proofs.Run.Reads

/-!
# Soundness of the gate

The analysis of a statement speaks of the names in a store after every run, of any length.
`Runs.unbound_mem_exposed` says that a run that meets an unbound name meets one that was
exposed and was not bound at the beginning.  `Runs.mem_keys` says that a run that comes to
its end has bound whatever was defined, and keeps what was bound.

Both carry one invariant along a run, in opposite directions.  From the end backwards, a
name that is exposed by what is left and not bound is so one step earlier
(`Step.mem_exposed`).  From the beginning forwards, a name that is bound or defined by what
is left is so one step later (`Step.mem_defined`).
-/

namespace WhileLang

open Analysis

/-- A name that is unbound when a run meets it was exposed and unbound from the start. -/
theorem Runs.unbound_mem_exposed {n : Nat} {pending : List Stmt} {st : Store} {x : String}
    (h : Runs n pending st (.stopped (.unbound x))) :
    x ∈ (ofAll pending).exposed ∧ st.lookup? x = none := by
  generalize ho : Outcome.stopped (.unbound x) = o at h
  induction h with
  | finished => cases ho
  | @stopped s st e n pending h =>
    cases ho
    obtain ⟨expr, hs, he⟩ := h
    obtain ⟨hx, hl⟩ := Expr.eval_unbound (Stmt.eval_unbound_iff.mp he)
    rw [ofAll_cons, mem_exposed_andThen]
    exact ⟨Or.inl (Stmt.mem_exposed_of_subject hs hx), hl⟩
  | @step n s st made left pending o h _ ih =>
    obtain ⟨hx, hl⟩ := ih ho
    have hnew : ¬x ∈ made.map Prod.fst := by
      intro hm
      obtain ⟨value, hv⟩ := Store.lookup?_prepend_of_mem hm
      rw [hv st] at hl
      cases hl
    rw [Store.lookup?_prepend_of_not_mem hnew] at hl
    exact ⟨(h.mem_exposed hx).resolve_right hnew, hl⟩

/-- A run that comes to its end has bound what was defined and keeps what was bound. -/
theorem Runs.mem_keys {n : Nat} {pending : List Stmt} {st st' : Store} {x : String}
    (h : Runs n pending st (.finished st')) (hx : x ∈ st.keys ∨ x ∈ (ofAll pending).defined) :
    x ∈ st'.keys := by
  generalize ho : Outcome.finished st' = o at h
  induction h with
  | finished n st =>
    cases ho
    exact hx.resolve_right (not_mem_defined_nothing x)
  | stopped => cases ho
  | @step n s st made left pending o h _ ih =>
    refine ih ?_ ho
    rw [Store.mem_keys_prepend]
    rcases hx with hx | hx
    · exact Or.inl (Or.inr hx)
    · rcases h.mem_defined hx with hm | hd
      · exact Or.inl (Or.inl hm)
      · exact Or.inr hd

/-- **The gate is sound, name by name.**  A run that meets an unbound name `x` meets one that
the analysis exposes and the store does not bind; so a statement that passes the gate never
does, whether it is run in a session or interpreted from the empty store.  A run that comes
to its end binds all it was given and all that the analysis calls defined. -/
theorem Stmt.analyze_sound (s : Stmt) (st : Store) :
    (∀ n x, s.run n st = some (.stopped (.unbound x)) →
      x ∈ s.exposedFrom st.keys ∧ x ∈ s.analyze.exposed ∧ ¬x ∈ st.keys) ∧
    ((s.exposedFrom st.keys).isEmpty = true →
      ∀ n x, s.run n st ≠ some (.stopped (.unbound x))) ∧
    (∀ n x, s.interpret n ≠ some (.ran (.stopped (.unbound x)))) ∧
    (∀ n st', s.run n st = some (.finished st') →
      (∀ x ∈ st.keys, x ∈ st'.keys) ∧ ∀ x ∈ s.analyze.defined, x ∈ st'.keys) := by
  have hunbound : ∀ (st : Store) n x, s.run n st = some (.stopped (.unbound x)) →
      x ∈ s.analyze.exposed ∧ ¬x ∈ st.keys := by
    intro st n x h
    obtain ⟨hx, hl⟩ := (Stmt.runs_iff_run.mpr h).unbound_mem_exposed
    rw [ofAll_singleton] at hx
    exact ⟨hx, Store.not_mem_keys_iff.mpr hl⟩
  refine ⟨fun n x h => ?_, fun hempty n x h => ?_, fun n x h => ?_, fun n st' h => ?_⟩
  · obtain ⟨hx, hk⟩ := hunbound st n x h
    exact ⟨NameSet.mem_diff.mpr ⟨hx, hk⟩, hx, hk⟩
  · have hx : x ∈ s.exposedFrom st.keys := NameSet.mem_diff.mpr (hunbound st n x h)
    exact NameSet.isEmpty_iff.mp hempty x hx
  · obtain ⟨hsafe, hr⟩ := interpret_eq_ran_iff.mp h
    exact NameSet.isEmpty_iff.mp hsafe x (hunbound ∅ n x hr).1
  · have hr := Stmt.runs_iff_run.mpr h
    refine ⟨fun x hx => hr.mem_keys (Or.inl hx), fun x hx => hr.mem_keys (Or.inr ?_)⟩
    rw [ofAll_singleton]
    exact hx

/-- Adds `Z` to `D` as often as `X` counts down to zero. -/
def tally : Stmt :=
  .seq (.assign "D" (.lit (.int 0)))
    (.loop (.bin .gt (.var "X") (.lit (.int 0)))
      (.seq (.assign "D" (.bin .plus (.var "D") (.var "Z")))
        (.assign "X" (.bin .minus (.var "X") (.lit (.int 1))))))

/-- Without `Z` the tally meets it in the body of its loop; with `Z` it passes the gate, never
meets an unbound name, and ends with `D` bound. -/
theorem analyze_sound_tally :
    (tally.run 5 ⟨[("X", .int 2)]⟩ = some (.stopped (.unbound "Z")) ∧
      "Z" ∈ tally.exposedFrom (Store.keys ⟨[("X", .int 2)]⟩)) ∧
    ((tally.exposedFrom (Store.keys ⟨[("Z", .int 5), ("X", .int 1)]⟩)).isEmpty = true ∧
      ∀ n x, tally.run n ⟨[("Z", .int 5), ("X", .int 1)]⟩ ≠ some (.stopped (.unbound x))) ∧
    (tally.run 7 ⟨[("Z", .int 5), ("X", .int 1)]⟩ = some (.finished
        ⟨[("X", .int 0), ("D", .int 5), ("D", .int 0), ("Z", .int 5), ("X", .int 1)]⟩) ∧
      "D" ∈ Store.keys ⟨[("X", .int 0), ("D", .int 5), ("D", .int 0), ("Z", .int 5),
        ("X", .int 1)]⟩) := by
  obtain ⟨hunbound, _, _, _⟩ := tally.analyze_sound ⟨[("X", .int 2)]⟩
  obtain ⟨_, hgate, _, hends⟩ := tally.analyze_sound ⟨[("Z", .int 5), ("X", .int 1)]⟩
  refine ⟨⟨rfl, (hunbound 5 "Z" rfl).1⟩, ⟨by decide, hgate (by decide)⟩, rfl, ?_⟩
  exact (hends 7 _ rfl).2 "D" (by decide)

end WhileLang
