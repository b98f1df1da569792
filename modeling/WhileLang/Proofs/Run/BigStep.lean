import WhileLang.Proofs.Run.Ends

/-!
# Runs and big steps

A run works through a list and knows nothing of what it has come from; a big step is derived
from the big steps of the parts of a statement.  `Stmt.ends_iff_bigStep` says that both come to
the same outcome, so that a run that uses up every budget is one without a big step
(`Stmt.run_eq_bigStep`).  Big steps have at most one outcome since runs do (`BigStep.unique`).

`BigSteps` puts big steps in a row, as many as there are statements in a list.  It is the
invariant from the run to the relation: whatever is pending, it is worth its big steps in a
row, since a step only takes a rule apart (`BigSteps.of_step`).  The other direction is an
induction on the derivation, each rule being one step and the runs of the premises behind it.

`FlatSteps` never descends into a chain: wherever it meets one, in a branch or a body too, it
works off the list of its statements.  A chain stands for its list in every place, so this comes
to the same (`flatSteps_flatten_iff`).
-/

namespace WhileLang

/-- The statement, started in the store, ends with the outcome. -/
inductive BigStep : Stmt → Store → Outcome → Prop
  | skip (st : Store) : BigStep .skip st (.finished st)
  | assign {name : String} {expr : Expr} {st : Store} {value : Value}
      (he : (Stmt.assign name expr).eval st expr = .ok value) :
      BigStep (.assign name expr) st (.finished (st.update name value))
  | assignStops {name : String} {expr : Expr} {st : Store} {e : RunError}
      (he : (Stmt.assign name expr).eval st expr = .error e) :
      BigStep (.assign name expr) st (.stopped e)
  | branchYes {cond : Expr} {yes no : Stmt} {st : Store} {value : Value} {o : Outcome}
      (hc : (Stmt.branch cond yes no).eval st cond = .ok value) (hv : value.holds = true)
      (hy : BigStep yes st o) : BigStep (.branch cond yes no) st o
  | branchNo {cond : Expr} {yes no : Stmt} {st : Store} {value : Value} {o : Outcome}
      (hc : (Stmt.branch cond yes no).eval st cond = .ok value) (hv : value.holds = false)
      (hn : BigStep no st o) : BigStep (.branch cond yes no) st o
  | branchStops {cond : Expr} {yes no : Stmt} {st : Store} {e : RunError}
      (hc : (Stmt.branch cond yes no).eval st cond = .error e) :
      BigStep (.branch cond yes no) st (.stopped e)
  | loopEnds {cond : Expr} {body : Stmt} {st : Store} {value : Value}
      (hc : (Stmt.loop cond body).eval st cond = .ok value) (hv : value.holds = false) :
      BigStep (.loop cond body) st (.finished st)
  | loopNext {cond : Expr} {body : Stmt} {st st' : Store} {value : Value} {o : Outcome}
      (hc : (Stmt.loop cond body).eval st cond = .ok value) (hv : value.holds = true)
      (hb : BigStep body st (.finished st')) (hl : BigStep (.loop cond body) st' o) :
      BigStep (.loop cond body) st o
  | loopBodyStops {cond : Expr} {body : Stmt} {st : Store} {value : Value} {e : RunError}
      (hc : (Stmt.loop cond body).eval st cond = .ok value) (hv : value.holds = true)
      (hb : BigStep body st (.stopped e)) : BigStep (.loop cond body) st (.stopped e)
  | loopStops {cond : Expr} {body : Stmt} {st : Store} {e : RunError}
      (hc : (Stmt.loop cond body).eval st cond = .error e) :
      BigStep (.loop cond body) st (.stopped e)
  | seq {first second : Stmt} {st st' : Store} {o : Outcome}
      (h1 : BigStep first st (.finished st')) (h2 : BigStep second st' o) :
      BigStep (.seq first second) st o
  | seqStops {first second : Stmt} {st : Store} {e : RunError}
      (h1 : BigStep first st (.stopped e)) : BigStep (.seq first second) st (.stopped e)

/-- The statements, each by a big step from where the one before it ended, come to the outcome. -/
inductive BigSteps : List Stmt → Store → Outcome → Prop
  | done (st : Store) : BigSteps [] st (.finished st)
  | next {s : Stmt} {pending : List Stmt} {st st' : Store} {o : Outcome}
      (h : BigStep s st (.finished st')) (hl : BigSteps pending st' o) :
      BigSteps (s :: pending) st o
  | stops {s : Stmt} {st : Store} {e : RunError} (pending : List Stmt)
      (h : BigStep s st (.stopped e)) : BigSteps (s :: pending) st (.stopped e)

/-! ### From runs to big steps -/

/-- What a step leaves is worth the statement that it took. -/
theorem BigSteps.of_step {s : Stmt} {st : Store} {made : List (String × Value)}
    {left pending : List Stmt} {o : Outcome} (h : Step s st made left)
    (hl : BigSteps (left ++ pending) (st.prepend made) o) : BigSteps (s :: pending) st o := by
  cases h with
  | skip => exact .next (.skip st) hl
  | assign he => exact .next (.assign he) hl
  | branchYes yes no hc hv =>
    cases hl with
    | next hy hl => exact .next (.branchYes hc hv hy) hl
    | stops _ hy => exact .stops pending (.branchYes hc hv hy)
  | branchNo yes no hc hv =>
    cases hl with
    | next hn hl => exact .next (.branchNo hc hv hn) hl
    | stops _ hn => exact .stops pending (.branchNo hc hv hn)
  | loopNext body hc hv =>
    cases hl with
    | next hb hl =>
      cases hl with
      | next hl' hl => exact .next (.loopNext hc hv hb hl') hl
      | stops _ hl' => exact .stops pending (.loopNext hc hv hb hl')
    | stops _ hb => exact .stops pending (.loopBodyStops hc hv hb)
  | loopEnds body hc hv => exact .next (.loopEnds hc hv) hl
  | seq first second =>
    cases hl with
    | next h1 hl =>
      cases hl with
      | next h2 hl => exact .next (.seq h1 h2) hl
      | stops _ h2 => exact .stops pending (.seq h1 h2)
    | stops _ h1 => exact .stops pending (.seqStops h1)

theorem Stops.bigStep {s : Stmt} {st : Store} {e : RunError} (h : Stops s st e) :
    BigStep s st (.stopped e) := by
  obtain ⟨expr, hs, he⟩ := h
  cases s with
  | skip => cases hs
  | seq => cases hs
  | assign => cases hs; exact .assignStops he
  | branch => cases hs; exact .branchStops he
  | loop => cases hs; exact .loopStops he

theorem Runs.bigSteps {n : Nat} {pending : List Stmt} {st : Store} {o : Outcome}
    (h : Runs n pending st o) : BigSteps pending st o := by
  induction h with
  | finished n st => exact .done st
  | stopped n pending h => exact .stops pending h.bigStep
  | step h _ ih => exact .of_step h ih

/-! ### From big steps to runs -/

theorem Stops.ends {s : Stmt} {st : Store} {e : RunError} (h : Stops s st e) :
    Ends [s] st (.stopped e) := ⟨1, .stopped 0 [] h⟩

theorem BigStep.ends {s : Stmt} {st : Store} {o : Outcome} (h : BigStep s st o) :
    Ends [s] st o := by
  induction h with
  | skip st => exact (ends_cons_iff_of_step (.skip st)).mpr (.nil st)
  | assign he => exact (ends_cons_iff_of_step (.assign he)).mpr (.nil _)
  | assignStops he => exact Stops.ends ⟨_, rfl, he⟩
  | branchYes hc hv _ ih => exact (ends_cons_iff_of_step (.branchYes _ _ hc hv)).mpr ih
  | branchNo hc hv _ ih => exact (ends_cons_iff_of_step (.branchNo _ _ hc hv)).mpr ih
  | branchStops hc => exact Stops.ends ⟨_, rfl, hc⟩
  | loopEnds hc hv => exact (ends_cons_iff_of_step (.loopEnds _ hc hv)).mpr (.nil _)
  | @loopNext cond body st st' value o hc hv _ _ ihb ihl =>
    -- one step, then the body, then the same loop from the store of the body
    have hboth : Ends [body, .loop cond body] st o := ends_cons_iff.mpr (Or.inl ⟨st', ihb, ihl⟩)
    exact (ends_cons_iff_of_step (.loopNext body hc hv)).mpr hboth
  | @loopBodyStops cond body st value e hc hv _ ihb =>
    have hboth : Ends [body, .loop cond body] st (.stopped e) :=
      ends_cons_iff.mpr (Or.inr ⟨e, rfl, ihb⟩)
    exact (ends_cons_iff_of_step (.loopNext body hc hv)).mpr hboth
  | loopStops hc => exact Stops.ends ⟨_, rfl, hc⟩
  | @seq first second st st' o _ _ ih1 ih2 =>
    exact ends_seq_iff.mpr (ends_cons_iff.mpr (Or.inl ⟨st', ih1, ih2⟩))
  | @seqStops first second st e _ ih =>
    exact ends_seq_iff.mpr (ends_cons_iff.mpr (Or.inr ⟨e, rfl, ih⟩))

theorem BigSteps.ends {pending : List Stmt} {st : Store} {o : Outcome}
    (h : BigSteps pending st o) : Ends pending st o := by
  induction h with
  | done st => exact .nil st
  | @next s pending st st' o h _ ih =>
    exact ends_cons_iff.mpr (Or.inl ⟨st', h.ends, ih⟩)
  | @stops s st e pending h =>
    exact ends_cons_iff.mpr (Or.inr ⟨e, rfl, h.ends⟩)

/-! ### The same outcomes -/

theorem ends_iff_bigSteps {pending : List Stmt} {st : Store} {o : Outcome} :
    Ends pending st o ↔ BigSteps pending st o := by
  constructor
  · rintro ⟨n, h⟩
    exact h.bigSteps
  · exact BigSteps.ends

theorem Stmt.ends_iff_bigStep {s : Stmt} {st : Store} {o : Outcome} :
    Ends [s] st o ↔ BigStep s st o := by
  constructor
  · intro h
    cases ends_iff_bigSteps.mp h with
    | next hs hl =>
      cases hl with
      | done => exact hs
    | stops _ hs => exact hs
  · exact BigStep.ends

/-! ### Chains as lists -/

/-- The statements in order come to the outcome.  What a step of one of them leaves is flattened
and worked off before the next one. -/
inductive FlatSteps : List Stmt → Store → Outcome → Prop
  | done (st : Store) : FlatSteps [] st (.finished st)
  | next {s : Stmt} {left pending : List Stmt} {st st' : Store} {made : List (String × Value)}
      {o : Outcome} (h : Step s st made left)
      (hi : FlatSteps (Stmt.flattenAll left) (st.prepend made) (.finished st'))
      (hl : FlatSteps pending st' o) : FlatSteps (s :: pending) st o
  | stopsInside {s : Stmt} {left : List Stmt} {st : Store} {made : List (String × Value)}
      {e : RunError} (pending : List Stmt) (h : Step s st made left)
      (hi : FlatSteps (Stmt.flattenAll left) (st.prepend made) (.stopped e)) :
      FlatSteps (s :: pending) st (.stopped e)
  | stops {s : Stmt} {st : Store} {e : RunError} (pending : List Stmt) (h : Stops s st e) :
      FlatSteps (s :: pending) st (.stopped e)

namespace FlatSteps

variable {first second : List Stmt} {st st' : Store} {o : Outcome}

theorem nothing_left (st : Store) : FlatSteps (Stmt.flattenAll []) st (.finished st) := by
  rw [Stmt.flattenAll]
  exact .done st

theorem of_step {s : Stmt} {left : List Stmt} {made : List (String × Value)}
    (hs : s.isSeq = false) (h : Step s st made left)
    (hi : FlatSteps (Stmt.flattenAll left) (st.prepend made) o) : FlatSteps s.flatten st o := by
  rw [Stmt.flatten_of_not_isSeq hs]
  cases o with
  | finished st' => exact .next h hi (.done st')
  | stopped e => exact .stopsInside [] h hi

theorem of_stops {s : Stmt} {e : RunError} (hs : s.isSeq = false) (h : Stops s st e) :
    FlatSteps s.flatten st (.stopped e) := by
  rw [Stmt.flatten_of_not_isSeq hs]
  exact .stops [] h

theorem append (h : FlatSteps first st (.finished st')) (h' : FlatSteps second st' o) :
    FlatSteps (first ++ second) st o := by
  generalize ho : Outcome.finished st' = o' at h
  induction h with
  | done st =>
    cases ho
    exact h'
  | next h hi _ _ ih => exact .next h hi (ih ho)
  | stopsInside => cases ho
  | stops => cases ho

theorem append_stopped {e : RunError} (h : FlatSteps first st (.stopped e))
    (second : List Stmt) : FlatSteps (first ++ second) st (.stopped e) := by
  generalize ho : Outcome.stopped e = o' at h
  induction h with
  | done => cases ho
  | next h hi _ _ ih => exact .next h hi (ih ho)
  | stopsInside pending h hi =>
    cases ho
    exact .stopsInside (pending ++ second) h hi
  | stops pending h =>
    cases ho
    exact .stops (pending ++ second) h

theorem ends (h : FlatSteps first st o) : Ends first st o := by
  induction h with
  | done st => exact .nil st
  | @next s left pending st st' made o h _ _ ihi ihl =>
    have hboth : Ends (left ++ pending) (st.prepend made) o :=
      ends_append_iff.mpr (Or.inl ⟨st', ends_flattenAll_iff.mp ihi, ihl⟩)
    exact (ends_cons_iff_of_step h).mpr hboth
  | @stopsInside s left st made e pending h _ ihi =>
    have hboth : Ends (left ++ pending) (st.prepend made) (.stopped e) :=
      ends_append_iff.mpr (Or.inr ⟨e, rfl, ends_flattenAll_iff.mp ihi⟩)
    exact (ends_cons_iff_of_step h).mpr hboth
  | stops pending h => exact ⟨1, .stopped 0 pending h⟩

end FlatSteps

theorem BigStep.flatSteps {s : Stmt} {st : Store} {o : Outcome} (h : BigStep s st o) :
    FlatSteps s.flatten st o := by
  induction h with
  | skip st => exact .of_step rfl (.skip st) (.nothing_left st)
  | assign he => exact .of_step rfl (.assign he) (.nothing_left _)
  | assignStops he => exact .of_stops rfl ⟨_, rfl, he⟩
  | branchYes hc hv _ ih => exact .of_step rfl (.branchYes _ _ hc hv) ih
  | branchNo hc hv _ ih => exact .of_step rfl (.branchNo _ _ hc hv) ih
  | branchStops hc => exact .of_stops rfl ⟨_, rfl, hc⟩
  | loopEnds hc hv => exact .of_step rfl (.loopEnds _ hc hv) (.nothing_left _)
  | @loopNext cond body st st' value o hc hv _ _ ihb ihl =>
    have hboth : FlatSteps (Stmt.flattenAll ([body] ++ [.loop cond body])) st o := by
      rw [Stmt.flattenAll_append]
      exact ihb.append ihl
    exact .of_step rfl (.loopNext body hc hv) hboth
  | @loopBodyStops cond body st value e hc hv _ ihb =>
    have hboth : FlatSteps (Stmt.flattenAll ([body] ++ [.loop cond body])) st (.stopped e) := by
      rw [Stmt.flattenAll_append]
      exact ihb.append_stopped _
    exact .of_step rfl (.loopNext body hc hv) hboth
  | loopStops hc => exact .of_stops rfl ⟨_, rfl, hc⟩
  | seq _ _ ih1 ih2 =>
    rw [Stmt.flatten_seq]
    exact ih1.append ih2
  | seqStops _ ih =>
    rw [Stmt.flatten_seq]
    exact ih.append_stopped _

theorem flatSteps_flatten_iff {s : Stmt} {st : Store} {o : Outcome} :
    FlatSteps s.flatten st o ↔ BigStep s st o := by
  constructor
  · intro h
    exact Stmt.ends_iff_bigStep.mp (ends_flatten_iff.mp h.ends)
  · exact BigStep.flatSteps

theorem BigStep.unique {s : Stmt} {st : Store} {o o' : Outcome} (h : BigStep s st o)
    (h' : BigStep s st o') : o = o' :=
  (Stmt.ends_iff_bigStep.mpr h).unique (Stmt.ends_iff_bigStep.mpr h')

theorem Stmt.run_eq_none_iff_not_ends {s : Stmt} {st : Store} :
    (∀ n, s.run n st = none) ↔ ∀ o, ¬Ends [s] st o := by
  simp only [ends_iff_run, not_exists]
  constructor
  · intro h o n hr
    rw [h n] at hr
    cases hr
  · intro h n
    cases hr : s.run n st with
    | none => rfl
    | some o => exact absurd hr (h o n)

theorem ends_seq_assoc {a b c : Stmt} {st : Store} {o : Outcome} :
    Ends [.seq (.seq a b) c] st o ↔ Ends [.seq a (.seq b c)] st o := by
  rw [← ends_flatten_iff, ← ends_flatten_iff, Stmt.flatten_seq, Stmt.flatten_seq,
    Stmt.flatten_seq, Stmt.flatten_seq, List.append_assoc]

/-- **A run computes the big steps.**  Within some budget a run comes to an outcome exactly if
there is a big step to it, with this final store, all of its bindings included, or with this
error; and it uses up every budget exactly if there is no big step at all.  Working off the
top-level statements in order is a big step of the whole statement, however its chains are
nested, and so it is if every chain in them is worked off in this way, in branches and bodies
too.  So three statements in a row have the same outcomes either way they are put together, and
diverge together. -/
theorem Stmt.run_eq_bigStep (s : Stmt) (st : Store) :
    (∀ o, (∃ n, s.run n st = some o) ↔ BigStep s st o) ∧
    ((∀ n, s.run n st = none) ↔ ∀ o, ¬BigStep s st o) ∧
    (∀ o, BigSteps s.flatten st o ↔ BigStep s st o) ∧
    (∀ o, FlatSteps s.flatten st o ↔ BigStep s st o) ∧
    ∀ a b c : Stmt,
      (∀ o, (∃ n, (seq (seq a b) c).run n st = some o) ↔
        ∃ n, (seq a (seq b c)).run n st = some o) ∧
      ((∀ n, (seq (seq a b) c).run n st = none) ↔ ∀ n, (seq a (seq b c)).run n st = none) := by
  refine ⟨fun o => ?_, ?_, fun o => ?_, fun o => flatSteps_flatten_iff,
    fun a b c => ⟨fun o => ?_, ?_⟩⟩
  · rw [← ends_iff_run, ends_iff_bigStep]
  · simp only [run_eq_none_iff_not_ends, ends_iff_bigStep]
  · rw [← ends_iff_bigSteps, ends_flatten_iff, ends_iff_bigStep]
  · rw [← ends_iff_run, ← ends_iff_run, ends_seq_assoc]
  · simp only [run_eq_none_iff_not_ends, ends_seq_assoc]

end WhileLang
