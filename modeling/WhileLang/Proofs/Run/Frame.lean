import WhileLang.Proofs.Run.Step

/-!
# What a run leaves alone

A run is at a place: some statements are pending, and a store has been made.  `Reaches` says
that a run comes from one place to another, by steps alone.  A run that comes to its end reaches
the place with nothing pending (`Runs.reaches`), and a run that stops reaches the statement that
stops it (`Runs.exists_stops`).  So what a step keeps is kept on the way to any place, wherever
the run goes from there.

A run puts bindings in front of its store and takes none away, and each name that it binds is
assigned somewhere in the statement: `Reaches.exists_prepend` says both at once, for whatever is
pending and however far the run has come.  It needs two facts about one step.  What a step
leaves stands within the statement that it took (`Step.within`), and what it binds is what this
statement assigns (`Step.assigns`).

Hence a name that a statement does not assign has the same value after it as before
(`Stmt.run_frame`).
-/

namespace WhileLang

/-! ### Places -/

/-- By steps, the statements pending in the store come to the others pending in the other store. -/
inductive Reaches : List Stmt → Store → List Stmt → Store → Prop
  | here (pending : List Stmt) (st : Store) : Reaches pending st pending st
  | step {s : Stmt} {st st' : Store} {made : List (String × Value)}
      {left pending pending' : List Stmt} (h : Step s st made left)
      (hr : Reaches (left ++ pending) (st.prepend made) pending' st') :
      Reaches (s :: pending) st pending' st'

theorem Runs.reaches {n : Nat} {pending : List Stmt} {st st' : Store}
    (h : Runs n pending st (.finished st')) : Reaches pending st [] st' := by
  generalize ho : Outcome.finished st' = o at h
  induction h with
  | finished n st =>
    cases ho
    exact .here [] st'
  | stopped => cases ho
  | step h _ ih => exact .step h (ih ho)

/-- A run that stops has reached the statement that stops it. -/
theorem Runs.exists_stops {n : Nat} {pending : List Stmt} {st : Store} {e : RunError}
    (h : Runs n pending st (.stopped e)) :
    ∃ t rest st', Reaches pending st (t :: rest) st' ∧ Stops t st' e := by
  generalize ho : Outcome.stopped e = o at h
  induction h with
  | finished => cases ho
  | @stopped s st e n pending h =>
    cases ho
    exact ⟨s, pending, st, .here (s :: pending) st, h⟩
  | step h _ ih =>
    obtain ⟨t, rest, st', hr, hs⟩ := ih ho
    exact ⟨t, rest, st', .step h hr, hs⟩

/-! ### Parts of a statement -/

namespace Stmt

/-- The statement is the other one, or stands somewhere inside it. -/
inductive Within (t : Stmt) : Stmt → Prop
  | refl : Within t t
  | yes {cond : Expr} {yes no : Stmt} (h : Within t yes) : Within t (.branch cond yes no)
  | no {cond : Expr} {yes no : Stmt} (h : Within t no) : Within t (.branch cond yes no)
  | body {cond : Expr} {body : Stmt} (h : Within t body) : Within t (.loop cond body)
  | first {first second : Stmt} (h : Within t first) : Within t (.seq first second)
  | second {first second : Stmt} (h : Within t second) : Within t (.seq first second)

theorem Within.trans {s t u : Stmt} (h : s.Within t) (h' : t.Within u) : s.Within u := by
  induction h' with
  | refl => exact h
  | yes _ ih => exact .yes ih
  | no _ ih => exact .no ih
  | body _ ih => exact .body ih
  | first _ ih => exact .first ih
  | second _ ih => exact .second ih

/-! ### Assigned names -/

/-- The name is assigned to somewhere in the statement. -/
def Assigns (s : Stmt) (x : String) : Prop := ∃ expr, (assign x expr).Within s

theorem Assigns.of_within {s t : Stmt} {x : String} (h : t.Assigns x) (ht : t.Within s) :
    s.Assigns x := by
  obtain ⟨expr, hw⟩ := h
  exact ⟨expr, hw.trans ht⟩

def targets : Stmt → NameSet
  | .skip => ∅
  | .assign name _ => .singleton name
  | .branch _ yes no => yes.targets ∪ no.targets
  | .loop _ body => body.targets
  | .seq first second => first.targets ∪ second.targets

theorem mem_targets_of_within {x : String} {expr : Expr} {s : Stmt}
    (h : (assign x expr).Within s) : x ∈ s.targets := by
  induction h with
  | refl => exact NameSet.mem_singleton.mpr rfl
  | yes _ ih => exact NameSet.mem_union.mpr (Or.inl ih)
  | no _ ih => exact NameSet.mem_union.mpr (Or.inr ih)
  | body _ ih => exact ih
  | first _ ih => exact NameSet.mem_union.mpr (Or.inl ih)
  | second _ ih => exact NameSet.mem_union.mpr (Or.inr ih)

theorem mem_targets_iff {x : String} {s : Stmt} : x ∈ s.targets ↔ s.Assigns x := by
  constructor
  · intro h
    induction s with
    | skip => exact absurd h (NameSet.not_mem_empty x)
    | assign name expr =>
      obtain rfl := NameSet.mem_singleton.mp h
      exact ⟨expr, .refl⟩
    | branch cond yes no ihy ihn =>
      rcases NameSet.mem_union.mp h with h | h
      · exact (ihy h).of_within (.yes .refl)
      · exact (ihn h).of_within (.no .refl)
    | loop cond body ih => exact (ih h).of_within (.body .refl)
    | seq first second ih1 ih2 =>
      rcases NameSet.mem_union.mp h with h | h
      · exact (ih1 h).of_within (.first .refl)
      · exact (ih2 h).of_within (.second .refl)
  · rintro ⟨expr, h⟩
    exact mem_targets_of_within h

instance (s : Stmt) (x : String) : Decidable (s.Assigns x) :=
  decidable_of_iff (x ∈ s.targets) mem_targets_iff

end Stmt

/-! ### One step -/

theorem Step.within {s t : Stmt} {st : Store} {made : List (String × Value)} {left : List Stmt}
    (h : Step s st made left) (ht : t ∈ left) : t.Within s := by
  cases h with
  | skip => cases ht
  | assign => cases ht
  | branchYes =>
    obtain rfl := List.mem_singleton.mp ht
    exact .yes .refl
  | branchNo =>
    obtain rfl := List.mem_singleton.mp ht
    exact .no .refl
  | loopNext =>
    rcases List.mem_cons.mp ht with rfl | ht
    · exact .body .refl
    · obtain rfl := List.mem_singleton.mp ht
      exact .refl
  | loopEnds => cases ht
  | seq =>
    rcases List.mem_cons.mp ht with rfl | ht
    · exact .first .refl
    · obtain rfl := List.mem_singleton.mp ht
      exact .second .refl

theorem Step.assigns {s : Stmt} {st : Store} {made : List (String × Value)} {left : List Stmt}
    {b : String × Value} (h : Step s st made left) (hb : b ∈ made) : s.Assigns b.1 := by
  cases h with
  | @assign name expr _ value _ =>
    obtain rfl := List.mem_singleton.mp hb
    exact ⟨expr, .refl⟩
  | skip => cases hb
  | branchYes => cases hb
  | branchNo => cases hb
  | loopNext => cases hb
  | loopEnds => cases hb
  | seq => cases hb

/-! ### Whole runs -/

/-- What is pending at a place that is reached stands within what was pending before. -/
theorem Reaches.within {pending pending' : List Stmt} {st st' : Store}
    (h : Reaches pending st pending' st') {t : Stmt} (ht : t ∈ pending') :
    ∃ s ∈ pending, t.Within s := by
  induction h with
  | here => exact ⟨t, ht, .refl⟩
  | @step s st st' made left pending pending' h _ ih =>
    obtain ⟨u, hu, hw⟩ := ih ht
    rcases List.mem_append.mp hu with hu | hu
    · exact ⟨s, List.mem_cons_self, hw.trans (h.within hu)⟩
    · exact ⟨u, List.mem_cons_of_mem s hu, hw⟩

/-- On its way a run puts bindings in front of its store, each of a name that is assigned in
what was pending, and leaves those that were there. -/
theorem Reaches.exists_prepend {pending pending' : List Stmt} {st st' : Store}
    (h : Reaches pending st pending' st') :
    ∃ made, st' = st.prepend made ∧ ∀ b ∈ made, ∃ s ∈ pending, s.Assigns b.1 := by
  induction h with
  | here pending st => exact ⟨[], st.prepend_nil.symm, fun b hb => by cases hb⟩
  | @step s st st' made left pending pending' h _ ih =>
    obtain ⟨later, rfl, hlater⟩ := ih
    refine ⟨later ++ made, st.prepend_prepend made later, fun b hb => ?_⟩
    rcases List.mem_append.mp hb with hb | hb
    · obtain ⟨t, ht, ha⟩ := hlater b hb
      rcases List.mem_append.mp ht with ht | ht
      · exact ⟨s, List.mem_cons_self, ha.of_within (h.within ht)⟩
      · exact ⟨t, List.mem_cons_of_mem s ht, ha⟩
    · exact ⟨s, List.mem_cons_self, h.assigns hb⟩

theorem Runs.exists_prepend {n : Nat} {pending : List Stmt} {st st' : Store}
    (h : Runs n pending st (.finished st')) :
    ∃ made, st' = st.prepend made ∧ ∀ b ∈ made, ∃ s ∈ pending, s.Assigns b.1 :=
  h.reaches.exists_prepend

/-- **A run only prepends, and only to assigned names.**  The bindings of the final store are
some new ones, each of a name that an assignment in the statement has as its target, followed by
exactly those of the first store.  So a name that is assigned nowhere in the statement is found
or missed as before, and no bound name is lost. -/
theorem Stmt.run_frame {s : Stmt} {n : Nat} {st st' : Store}
    (h : s.run n st = some (.finished st')) :
    (∃ made, st'.bindings = made ++ st.bindings ∧
      ∀ b ∈ made, ∃ expr, (assign b.1 expr).Within s) ∧
    (∀ x, (∀ expr, ¬(assign x expr).Within s) → st'.lookup x = st.lookup x) ∧
    ∀ x ∈ st.keys, x ∈ st'.keys := by
  obtain ⟨made, rfl, hmade⟩ := (runs_iff_run.mpr h).exists_prepend
  have hassigns : ∀ b ∈ made, s.Assigns b.1 := by
    intro b hb
    obtain ⟨t, ht, ha⟩ := hmade b hb
    obtain rfl := List.mem_singleton.mp ht
    exact ha
  refine ⟨⟨made, rfl, hassigns⟩, fun x hx => ?_, fun x hx => ?_⟩
  · have hnew : ¬x ∈ made.map Prod.fst := by
      intro hm
      obtain ⟨b, hb, rfl⟩ := List.mem_map.mp hm
      obtain ⟨expr, hw⟩ := hassigns b hb
      exact hx expr hw
    rw [Store.lookup, Store.lookup, Store.lookup?_prepend_of_not_mem hnew]
  · exact Store.mem_keys_prepend.mpr (Or.inr hx)

/-- Counts `N` down to zero and keeps its last value in `P`, if `B` says so. -/
def lastSeen : Stmt :=
  .loop (.bin .gt (.var "N") (.lit (.int 0)))
    (.seq (.branch (.var "B") (.assign "P" (.var "N")) .skip)
      (.assign "N" (.bin .minus (.var "N") (.lit (.int 1)))))

/-- From `N = 1` the run binds `N` and `P` anew in front of its store.  It assigns neither `B`,
which stays bound, nor `K`, which stays unbound. -/
theorem run_frame_lastSeen :
    lastSeen.run 6 ⟨[("N", .int 1), ("B", .bool true)]⟩ = some (.finished
      ⟨[("N", .int 0), ("P", .int 1), ("N", .int 1), ("B", .bool true)]⟩) ∧
    (∃ made : List (String × Value),
      [("N", .int 0), ("P", .int 1), ("N", .int 1), ("B", .bool true)] =
        made ++ [("N", .int 1), ("B", .bool true)] ∧
      ∀ b ∈ made, ∃ expr, (Stmt.assign b.1 expr).Within lastSeen) ∧
    Store.lookup ⟨[("N", .int 0), ("P", .int 1), ("N", .int 1), ("B", .bool true)]⟩ "B" =
      .ok (.bool true) ∧
    Store.lookup ⟨[("N", .int 0), ("P", .int 1), ("N", .int 1), ("B", .bool true)]⟩ "K" =
      .error (.unbound "K") := by
  have hrun : lastSeen.run 6 ⟨[("N", .int 1), ("B", .bool true)]⟩ = some (.finished
      ⟨[("N", .int 0), ("P", .int 1), ("N", .int 1), ("B", .bool true)]⟩) := by
    decide
  have hfree : ∀ x ∈ ["B", "K"], ¬lastSeen.Assigns x := by decide
  obtain ⟨hmade, hlookup, -⟩ := Stmt.run_frame hrun
  refine ⟨hrun, hmade, ?_, ?_⟩
  · exact hlookup "B" fun expr hw => hfree "B" (by simp) ⟨expr, hw⟩
  · exact hlookup "K" fun expr hw => hfree "K" (by simp) ⟨expr, hw⟩

end WhileLang
