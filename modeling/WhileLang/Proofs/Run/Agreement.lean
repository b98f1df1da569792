import WhileLang.Interpret
import WhileLang.Proofs.Analysis.Pending
import WhileLang.Proofs.Run.Reads

/-!
# Runs from stores that agree

The exposed names of a statement are all it takes in.  Two stores that agree on them may
differ on every other name, also on one that the statement reads after it has written it,
and still its runs go side by side: at every budget they have the same effect, that is, they
put the same bindings in front of their stores or stop with the same error (`SameEffect`).

The relation between the two runs is agreement on the names that are exposed by what is left
to run.  A step looks at exposed names only, so both runs take the same step
(`Step.transfer`, `Stops.transfer`), and then they agree on what is exposed next, for such a
name was exposed before or has just been bound in both stores alike (`Step.agreesOn`).

Agreement has a direction.  It asks for the values of names that the first store binds, and
an unbound name may stop the first run and not the second one.  That the runs meet the same
unbound names needs agreement both ways.
-/

namespace WhileLang

open Analysis

/-! ### One step -/

/-- What is exposed after a step has the same new value in both stores, or was exposed before. -/
theorem Step.agreesOn {s : Stmt} {st a b : Store} {made : List (String × Value)}
    {left pending : List Stmt} (h : Step s st made left)
    (hab : Store.AgreesOn (ofAll (s :: pending)).exposed a b) :
    Store.AgreesOn (ofAll (left ++ pending)).exposed (a.prepend made) (b.prepend made) := by
  intro x hx value hv
  by_cases hm : x ∈ made.map Prod.fst
  · obtain ⟨new, hnew⟩ := Store.lookup?_prepend_of_mem hm
    rw [hnew] at hv ⊢
    exact hv
  · rw [Store.lookup?_prepend_of_not_mem hm] at hv ⊢
    exact hab x ((h.mem_exposed hx).resolve_right hm) value hv

theorem agreesOn_head {s : Stmt} {pending : List Stmt} {a b : Store}
    (hab : Store.AgreesOn (ofAll (s :: pending)).exposed a b) :
    Store.AgreesOn s.analyze.exposed a b := by
  refine hab.mono fun x hx => ?_
  rw [ofAll_cons, mem_exposed_andThen]
  exact Or.inl hx

/-- The first expression of a statement comes to the same in both stores, unless it meets a
name that is unbound in the first one. -/
theorem Stmt.eval_of_agreesOn {s : Stmt} {expr : Expr} {a b : Store} {r : Except RunError Value}
    (hs : s.subject? = some expr) (hab : Store.AgreesOn s.analyze.exposed a b)
    (he : s.eval a expr = r) (hne : ∀ x, r ≠ .error (.unbound x)) : s.eval b expr = r := by
  have hr : Store.AgreesOn expr.reads a b := hab.mono fun x hx => Stmt.mem_exposed_of_subject hs hx
  rcases Expr.eval_eq_or_unbound hr with hb | ⟨x, hx⟩
  · rw [Stmt.eval_congr hb, he]
  · have hx' : s.eval a expr = .error (.unbound x) := Stmt.eval_unbound_iff.mpr hx
    exact absurd (he.symm.trans hx') (hne x)

theorem Stmt.eval_ok_of_agreesOn {s : Stmt} {expr : Expr} {a b : Store} {value : Value}
    (hs : s.subject? = some expr) (hab : Store.AgreesOn s.analyze.exposed a b)
    (he : s.eval a expr = .ok value) : s.eval b expr = .ok value :=
  Stmt.eval_of_agreesOn hs hab he fun x h => by cases h

/-- A step that is taken in one store is taken in a store that agrees with it. -/
theorem Step.transfer {s : Stmt} {a b : Store} {made : List (String × Value)} {left : List Stmt}
    (h : Step s a made left) (hab : Store.AgreesOn s.analyze.exposed a b) :
    Step s b made left := by
  cases h with
  | skip => exact .skip b
  | assign he => exact .assign (Stmt.eval_ok_of_agreesOn rfl hab he)
  | branchYes yes no hc hv => exact .branchYes yes no (Stmt.eval_ok_of_agreesOn rfl hab hc) hv
  | branchNo yes no hc hv => exact .branchNo yes no (Stmt.eval_ok_of_agreesOn rfl hab hc) hv
  | loopNext body hc hv => exact .loopNext body (Stmt.eval_ok_of_agreesOn rfl hab hc) hv
  | loopEnds body hc hv => exact .loopEnds body (Stmt.eval_ok_of_agreesOn rfl hab hc) hv
  | seq first second => exact .seq first second b

/-- A statement that stops in one store stops in the same way in a store that agrees with it,
and in the case of an unbound name if they agree both ways. -/
theorem Stops.transfer {s : Stmt} {a b : Store} {e : RunError} (h : Stops s a e)
    (hab : Store.AgreesOn s.analyze.exposed a b)
    (hba : ∀ x, e = .unbound x → Store.AgreesOn s.analyze.exposed b a) : Stops s b e := by
  obtain ⟨expr, hs, he⟩ := h
  refine ⟨expr, hs, ?_⟩
  cases e with
  | unbound x =>
    have hsame : ∀ y ∈ expr.reads, a.lookup? y = b.lookup? y := by
      intro y hy
      exact hab.lookup?_eq (hba x rfl) (Stmt.mem_exposed_of_subject hs hy)
    rw [← Stmt.eval_congr (Expr.eval_congr hsame), he]
  | failed f => exact Stmt.eval_of_agreesOn hs hab he fun x h => by cases h

/-! ### Whole runs -/

/-- Two runs put the same bindings in front of their stores, or stop with the same error. -/
inductive SameEffect (a b : Store) : Outcome → Outcome → Prop
  | finished (made : List (String × Value)) :
      SameEffect a b (.finished (a.prepend made)) (.finished (b.prepend made))
  | stopped (e : RunError) : SameEffect a b (.stopped e) (.stopped e)

theorem SameEffect.of_prepend {a b : Store} {made : List (String × Value)} {o o' : Outcome}
    (h : SameEffect (a.prepend made) (b.prepend made) o o') : SameEffect a b o o' := by
  cases h with
  | finished later =>
    rw [Store.prepend_prepend, Store.prepend_prepend]
    exact .finished (later ++ made)
  | stopped e => exact .stopped e

/-- A run has the same effect from a store that agrees on what is exposed; if it stops at an
unbound name, agreement both ways is needed. -/
theorem Runs.transfer {n : Nat} {pending : List Stmt} {a : Store} {o : Outcome}
    (h : Runs n pending a o) : ∀ {b : Store}, Store.AgreesOn (ofAll pending).exposed a b →
      (∀ x, o = .stopped (.unbound x) → Store.AgreesOn (ofAll pending).exposed b a) →
      ∃ o', Runs n pending b o' ∧ SameEffect a b o o' := by
  induction h with
  | finished n a => exact fun {b} _ _ => ⟨.finished b, .finished n b, .finished []⟩
  | @stopped s a e n pending h =>
    intro b hab hba
    have hs : Stops s b e := h.transfer (agreesOn_head hab) fun x hx =>
      agreesOn_head (hba x (congrArg Outcome.stopped hx))
    exact ⟨.stopped e, .stopped n pending hs, .stopped e⟩
  | step h _ ih =>
    intro b hab hba
    obtain ⟨o', hr, he⟩ := ih (h.agreesOn hab) fun x hx => h.agreesOn (hba x hx)
    exact ⟨o', .step (h.transfer (agreesOn_head hab)) hr, he.of_prepend⟩

theorem Stmt.run_transfer {s : Stmt} {n : Nat} {a b : Store} {o : Outcome}
    (h : s.run n a = some o) (hab : Store.AgreesOn s.analyze.exposed a b)
    (hba : ∀ x, o = .stopped (.unbound x) → Store.AgreesOn s.analyze.exposed b a) :
    ∃ o', s.run n b = some o' ∧ SameEffect a b o o' := by
  rw [← ofAll_singleton] at hab hba
  obtain ⟨o', hr, he⟩ := (Stmt.runs_iff_run.mpr h).transfer hab hba
  exact ⟨o', Stmt.runs_iff_run.mp hr, he⟩

theorem Stmt.run_eq_none_iff {s : Stmt} {a b : Store}
    (hab : Store.AgreesOn s.analyze.exposed a b) (hba : Store.AgreesOn s.analyze.exposed b a)
    (n : Nat) : s.run n a = none ↔ s.run n b = none := by
  constructor
  · intro ha
    cases hb : s.run n b with
    | none => rfl
    | some o =>
      obtain ⟨o', ho', _⟩ := Stmt.run_transfer hb hba fun _ _ => hab
      rw [ha] at ho'
      cases ho'
  · intro hb
    cases ha : s.run n a with
    | none => rfl
    | some o =>
      obtain ⟨o', ho', _⟩ := Stmt.run_transfer ha hab fun _ _ => hba
      rw [hb] at ho'
      cases ho'

/-! ### The exposed names are the input -/

namespace Stmt

variable {s : Stmt} {a b : Store}

theorem run_finished_transfer {n : Nat} {a' : Store} (h : s.run n a = some (.finished a'))
    (hab : Store.AgreesOn s.analyze.exposed a b) :
    ∃ made, a' = a.prepend made ∧ s.run n b = some (.finished (b.prepend made)) := by
  obtain ⟨o', ho', he⟩ := run_transfer h hab fun x hx => by cases hx
  cases he with
  | finished made => exact ⟨made, rfl, ho'⟩

theorem run_failed_transfer {n : Nat} {f : Failure} (h : s.run n a = some (.stopped (.failed f)))
    (hab : Store.AgreesOn s.analyze.exposed a b) :
    s.run n b = some (.stopped (.failed f)) := by
  obtain ⟨o', ho', he⟩ := run_transfer h hab fun x hx => by cases hx
  cases he
  exact ho'

theorem run_stopped_transfer {n : Nat} {e : RunError} (h : s.run n a = some (.stopped e))
    (hab : Store.AgreesOn s.analyze.exposed a b) (hba : Store.AgreesOn s.analyze.exposed b a) :
    s.run n b = some (.stopped e) := by
  obtain ⟨o', ho', he⟩ := run_transfer h hab fun _ _ => hba
  cases he
  exact ho'

theorem agreesOn_of_isSafe (h : s.analyze.isSafe = true) (a b : Store) :
    Store.AgreesOn s.analyze.exposed a b :=
  fun x hx => absurd hx (NameSet.isEmpty_iff.mp h x)

/-- What interpretation makes of a statement is made in front of any store. -/
theorem run_of_interpret {n : Nat} {st : Store} (h : s.interpret n = some (.ran (.finished st)))
    (a : Store) : s.run n a = some (.finished (a.prepend st.bindings)) := by
  obtain ⟨hsafe, hr⟩ := interpret_eq_ran_iff.mp h
  obtain ⟨made, hm, hr'⟩ := run_finished_transfer hr (agreesOn_of_isSafe hsafe ∅ a)
  have hst : st = ⟨made⟩ := hm.trans (Store.empty_prepend ⟨made⟩)
  rw [hst]
  exact hr'

/-- **The exposed names are the whole input of a statement.**  If every exposed name that `a`
binds has the same value in `b`, then a run from `a` that comes to its end or fails does the
same from `b`: it puts the same bindings in front, or has the same failure.  If the two bind
the same exposed names, they also stop at the same unbound names and come to their end
together.  So a program that is interpreted puts its bindings in front of whatever store it
is run from, and stores that are the same mapping have runs that are the same. -/
theorem run_noninterference (s : Stmt) (a b : Store) :
    (Store.AgreesOn s.analyze.exposed a b → ∀ n,
      (∀ a', s.run n a = some (.finished a') → ∃ made b', s.run n b = some (.finished b') ∧
        a'.bindings = made ++ a.bindings ∧ b'.bindings = made ++ b.bindings) ∧
      ∀ f, s.run n a = some (.stopped (.failed f)) → s.run n b = some (.stopped (.failed f))) ∧
    (Store.AgreesOn s.analyze.exposed a b →
      (∀ x ∈ s.analyze.exposed, x ∈ a.keys ↔ x ∈ b.keys) → ∀ n,
      (∀ x, s.run n a = some (.stopped (.unbound x)) ↔
        s.run n b = some (.stopped (.unbound x))) ∧
      ((∃ a', s.run n a = some (.finished a')) ↔ ∃ b', s.run n b = some (.finished b')) ∧
      (s.run n a = none ↔ s.run n b = none)) ∧
    (∀ n st, s.interpret n = some (.ran (.finished st)) →
      s.run n a = some (.finished (a.prepend st.bindings))) ∧
    (s.analyze.isSafe = true → ∀ n a', s.run n a = some (.finished a') →
      ∃ made, a' = a.prepend made ∧ s.run n b = some (.finished (b.prepend made))) ∧
    (a.same b = true → ∀ n,
      (∀ a', s.run n a = some (.finished a') →
        ∃ b', s.run n b = some (.finished b') ∧ a'.same b' = true) ∧
      (∀ e, s.run n a = some (.stopped e) ↔ s.run n b = some (.stopped e)) ∧
      (s.run n a = none ↔ s.run n b = none)) := by
  refine ⟨fun hab n => ⟨?_, fun f h => run_failed_transfer h hab⟩, fun hab hkeys n => ?_,
    fun n st h => run_of_interpret h a,
    fun hsafe n a' h => run_finished_transfer h (agreesOn_of_isSafe hsafe a b),
    fun hsame n => ?_⟩
  · intro a' h
    obtain ⟨made, rfl, hr⟩ := run_finished_transfer h hab
    exact ⟨made, b.prepend made, hr, rfl, rfl⟩
  · have hba : Store.AgreesOn s.analyze.exposed b a := hab.symm fun x hx => (hkeys x hx).mpr
    refine ⟨fun x => ⟨fun h => run_stopped_transfer h hab hba,
      fun h => run_stopped_transfer h hba hab⟩, ⟨?_, ?_⟩, run_eq_none_iff hab hba n⟩
    · rintro ⟨a', h⟩
      obtain ⟨made, _, hr⟩ := run_finished_transfer h hab
      exact ⟨_, hr⟩
    · rintro ⟨b', h⟩
      obtain ⟨made, _, hr⟩ := run_finished_transfer h hba
      exact ⟨_, hr⟩
  · have heq := Store.lookup?_eq_of_same hsame
    have hab : Store.AgreesOn s.analyze.exposed a b := fun x _ value hv => (heq x).symm.trans hv
    have hba : Store.AgreesOn s.analyze.exposed b a := fun x _ value hv => (heq x).trans hv
    refine ⟨fun a' h => ?_, fun e => ⟨fun h => run_stopped_transfer h hab hba,
      fun h => run_stopped_transfer h hba hab⟩, run_eq_none_iff hab hba n⟩
    obtain ⟨made, rfl, hr⟩ := run_finished_transfer h hab
    exact ⟨_, hr, Store.same_prepend hsame made⟩

end Stmt

/-- Writes `S` before it reads it, so that `Z` is all it takes in; fails when `Z` is zero. -/
def portion : Stmt :=
  .seq (.assign "S" (.lit (.int 6)))
    (.branch (.bin .lt (.var "Z") (.lit (.int 0))) .skip
      (.assign "S" (.bin .divide (.var "S") (.var "Z"))))

theorem agreesOn_portion {a b : Store} (h : a.lookup? "Z" = b.lookup? "Z") :
    Store.AgreesOn portion.analyze.exposed a b := by
  have hz : portion.analyze.exposed = .singleton "Z" := by decide
  intro x hx value hv
  rw [hz, NameSet.mem_singleton] at hx
  rw [hx] at hv ⊢
  rw [← h, hv]

/-- Stores that differ on `S` make no difference to `portion`: it ends with the same bindings,
fails in the same way, and misses the same name; nor does a shadowed `Z`.  An assignment of a
number is safe and makes one binding anywhere. -/
theorem run_noninterference_portion :
    (∃ made b', portion.run 4 ⟨[("S", .bool true), ("Z", .int 2)]⟩ = some (.finished b') ∧
      [("S", .int 3), ("S", .int 6), ("Z", .int 2)] = made ++ [("Z", .int 2)] ∧
      b'.bindings = made ++ [("S", .bool true), ("Z", .int 2)]) ∧
    portion.run 4 ⟨[("S", .bool true), ("Z", .int 0)]⟩ = some (.stopped (.failed
      ⟨.divisionByZero, .bin .divide (.var "S") (.var "Z"),
        some (.assign "S" (.bin .divide (.var "S") (.var "Z")))⟩)) ∧
    portion.run 4 ⟨[("S", .bool true)]⟩ = some (.stopped (.unbound "Z")) ∧
    (Stmt.assign "S" (.lit (.int 6))).run 1 ⟨[("Z", .int 2)]⟩ =
      some (.finished (Store.prepend ⟨[("Z", .int 2)]⟩ [("S", .int 6)])) ∧
    (∃ made, (⟨[("S", .int 6), ("Z", .int 2)]⟩ : Store) = Store.prepend ⟨[("Z", .int 2)]⟩ made ∧
      (Stmt.assign "S" (.lit (.int 6))).run 1 ⟨[("Z", .int 3)]⟩ =
        some (.finished (Store.prepend ⟨[("Z", .int 3)]⟩ made))) ∧
    (∃ b', portion.run 4 ⟨[("Z", .int 2), ("Z", .int 0)]⟩ = some (.finished b') ∧
      Store.same ⟨[("S", .int 3), ("S", .int 6), ("Z", .int 2)]⟩ b' = true) := by
  obtain ⟨hends, _, _, _, _⟩ := Stmt.run_noninterference portion ⟨[("Z", .int 2)]⟩
    ⟨[("S", .bool true), ("Z", .int 2)]⟩
  obtain ⟨hfails, _, _, _, _⟩ := Stmt.run_noninterference portion ⟨[("Z", .int 0)]⟩
    ⟨[("S", .bool true), ("Z", .int 0)]⟩
  obtain ⟨_, hmisses, _, _, _⟩ := Stmt.run_noninterference portion ∅ ⟨[("S", .bool true)]⟩
  obtain ⟨_, _, hgate, hsafe, _⟩ := Stmt.run_noninterference (.assign "S" (.lit (.int 6)))
    ⟨[("Z", .int 2)]⟩ ⟨[("Z", .int 3)]⟩
  obtain ⟨_, _, _, _, hsame⟩ := Stmt.run_noninterference portion ⟨[("Z", .int 2)]⟩
    ⟨[("Z", .int 2), ("Z", .int 0)]⟩
  refine ⟨(hends (agreesOn_portion rfl) 4).1 _ rfl,
    (hfails (agreesOn_portion rfl) 4).2 _ rfl, ?_, hgate 1 ⟨[("S", .int 6)]⟩ rfl,
    hsafe (by decide) 1 _ rfl, (hsame (by decide) 4).1 _ rfl⟩
  exact ((hmisses (agreesOn_portion rfl) (by decide) 4).1 "Z").mp rfl

end WhileLang
