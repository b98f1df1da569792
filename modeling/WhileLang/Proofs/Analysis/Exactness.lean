import WhileLang.Analysis.Path
import WhileLang.Proofs.Analysis.Pending

/-!
# Exactness of the analysis

The analysis is exact over the paths of a statement, for each name by itself: a name is
exposed exactly when some path reads it first, and defined exactly when every path writes
it.  So a statement is safe exactly when none of its paths reads a name first.

That the analysis misses no path is an induction over the path (`Path.mem_exposed`, and
`Path.writes_of_mem_defined` for the names that are defined).  That it reports nothing else
is an induction over the statement, and each case has to show a path: for a name that is
exposed one that reads it first (`Stmt.exists_path_readsFirst`), for a name that is not
defined one that does not write it (`Stmt.exists_path_not_write`).  In two statements in
order the second kind of path leads up to the first kind.
-/

namespace WhileLang

/-! ### Reading first -/

/-- Accesses in a row read a name first in the first part, or in the second part if the first
one does not write it. -/
theorem readsFirst_append {x : String} {p q : List Access} :
    ReadsFirst x (p ++ q) ↔ ReadsFirst x p ∨ (¬Access.write x ∈ p ∧ ReadsFirst x q) := by
  constructor
  · rintro ⟨before, after, he, hw⟩
    rcases List.append_eq_append_iff.mp he with ⟨more, hb, hq⟩ | ⟨more, hp, ha⟩
    · right
      rw [hb] at hw
      refine ⟨fun h => hw (List.mem_append_left _ h), more, after, hq, fun h => ?_⟩
      exact hw (List.mem_append_right _ h)
    · cases more with
      | nil =>
        right
        rw [List.append_nil] at hp
        rw [hp]
        exact ⟨hw, [], after, ha.symm, List.not_mem_nil⟩
      | cons a more =>
        rw [List.cons_append, List.cons.injEq] at ha
        rw [← ha.1] at hp
        exact Or.inl ⟨before, more, hp, hw⟩
  · rintro (⟨before, after, he, hw⟩ | ⟨hp, before, after, he, hw⟩)
    · exact ⟨before, after ++ q, by rw [he, List.append_assoc, List.cons_append], hw⟩
    · refine ⟨p ++ before, after, by rw [he, List.append_assoc], fun h => ?_⟩
      rcases List.mem_append.mp h with h | h
      · exact hp h
      · exact hw h

theorem Expr.readsFirst_accesses {x : String} {e : Expr} :
    ReadsFirst x e.accesses ↔ x ∈ e.reads := by
  rw [← Expr.read_mem_accesses_iff]
  constructor
  · rintro ⟨before, after, he, _⟩
    rw [he]
    exact List.mem_append_right _ List.mem_cons_self
  · intro h
    obtain ⟨before, after, he⟩ := List.append_of_mem h
    refine ⟨before, after, he, fun hw => Expr.write_not_mem_accesses x e ?_⟩
    rw [he]
    exact List.mem_append_left _ hw

theorem Expr.readsFirst_accesses_append {x : String} {e : Expr} {p : List Access} :
    ReadsFirst x (e.accesses ++ p) ↔ x ∈ e.reads ∨ ReadsFirst x p := by
  rw [readsFirst_append, Expr.readsFirst_accesses,
    and_iff_right (Expr.write_not_mem_accesses x e)]

theorem Expr.write_mem_accesses_append {x : String} {e : Expr} {p : List Access} :
    Access.write x ∈ e.accesses ++ p ↔ Access.write x ∈ p := by
  rw [List.mem_append, or_iff_right (Expr.write_not_mem_accesses x e)]

theorem not_readsFirst_nil (x : String) : ¬ReadsFirst x [] := by
  rintro ⟨before, after, he, _⟩
  cases before <;> cases he

theorem not_readsFirst_write (x name : String) : ¬ReadsFirst x [.write name] := by
  rintro ⟨before, after, he, _⟩
  cases before with
  | nil => cases he
  | cons a before =>
    rw [List.cons_append, List.cons.injEq] at he
    cases before <;> cases he.2

/-! ### The analysis misses no path -/

theorem Path.mem_exposed {x : String} {s : Stmt} {p : List Access} (h : Path s p)
    (hx : ReadsFirst x p) : x ∈ s.analyze.exposed := by
  induction h with
  | skip => exact absurd hx (not_readsFirst_nil x)
  | assign name expr =>
    rw [Stmt.analyze_assign]
    exact (Expr.readsFirst_accesses_append.mp hx).resolve_right (not_readsFirst_write x name)
  | branchYes _ ih =>
    rw [Stmt.analyze_branch, NameSet.mem_union, NameSet.mem_union]
    rcases Expr.readsFirst_accesses_append.mp hx with hc | hp
    · exact Or.inl (Or.inl hc)
    · exact Or.inl (Or.inr (ih hp))
  | branchNo _ ih =>
    rw [Stmt.analyze_branch, NameSet.mem_union, NameSet.mem_union]
    rcases Expr.readsFirst_accesses_append.mp hx with hc | hp
    · exact Or.inl (Or.inl hc)
    · exact Or.inr (ih hp)
  | loopEnds cond body =>
    rw [Stmt.analyze_loop, NameSet.mem_union]
    exact Or.inl (Expr.readsFirst_accesses.mp hx)
  | @loopNext cond body p q _ _ ihp ihq =>
    -- the rest of the loop has the analysis of the loop
    rw [List.append_assoc] at hx
    rcases Expr.readsFirst_accesses_append.mp hx with hc | hpq
    · rw [Stmt.analyze_loop, NameSet.mem_union]
      exact Or.inl hc
    · rcases readsFirst_append.mp hpq with hp | ⟨_, hq⟩
      · rw [Stmt.analyze_loop, NameSet.mem_union]
        exact Or.inr (ihp hp)
      · exact ihq hq
  | seq h1 _ ih1 ih2 =>
    rw [Stmt.analyze_seq, Analysis.mem_exposed_andThen]
    rcases readsFirst_append.mp hx with hp | ⟨hw, hq⟩
    · exact Or.inl (ih1 hp)
    · exact Or.inr ⟨ih2 hq, fun hd => hw (h1.writes_of_mem_defined hd)⟩

/-! ### The analysis reports nothing else -/

namespace Stmt

theorem exists_path (s : Stmt) : ∃ p, Path s p := by
  induction s with
  | skip => exact ⟨_, .skip⟩
  | assign name expr => exact ⟨_, .assign name expr⟩
  | branch cond yes no ihy _ =>
    obtain ⟨p, hp⟩ := ihy
    exact ⟨_, .branchYes hp⟩
  | loop cond body => exact ⟨_, .loopEnds cond body⟩
  | seq first second ih1 ih2 =>
    obtain ⟨p, hp⟩ := ih1
    obtain ⟨q, hq⟩ := ih2
    exact ⟨_, .seq hp hq⟩

/-- Some path avoids writing a name that is not defined. -/
theorem exists_path_not_write {x : String} {s : Stmt} (hx : ¬x ∈ s.analyze.defined) :
    ∃ p, Path s p ∧ ¬Access.write x ∈ p := by
  induction s with
  | skip => exact ⟨[], .skip, List.not_mem_nil⟩
  | assign name expr =>
    rw [analyze_assign, NameSet.mem_singleton] at hx
    refine ⟨_, .assign name expr, fun h => ?_⟩
    have hname := Expr.write_mem_accesses_append.mp h
    exact hx (by simpa using hname)
  | branch cond yes no ihy ihn =>
    rw [analyze_branch, NameSet.mem_inter] at hx
    by_cases hy : x ∈ yes.analyze.defined
    · obtain ⟨p, hp, hw⟩ := ihn fun hn => hx ⟨hy, hn⟩
      exact ⟨_, .branchNo hp, fun h => hw (Expr.write_mem_accesses_append.mp h)⟩
    · obtain ⟨p, hp, hw⟩ := ihy hy
      exact ⟨_, .branchYes hp, fun h => hw (Expr.write_mem_accesses_append.mp h)⟩
  | loop cond body =>
    exact ⟨_, .loopEnds cond body, Expr.write_not_mem_accesses x cond⟩
  | seq first second ih1 ih2 =>
    rw [analyze_seq, Analysis.mem_defined_andThen, not_or] at hx
    obtain ⟨p, hp, hwp⟩ := ih1 hx.1
    obtain ⟨q, hq, hwq⟩ := ih2 hx.2
    exact ⟨_, .seq hp hq, fun h => (List.mem_append.mp h).elim hwp hwq⟩

/-- Some path reads first a name that is exposed. -/
theorem exists_path_readsFirst {x : String} {s : Stmt} (hx : x ∈ s.analyze.exposed) :
    ∃ p, Path s p ∧ ReadsFirst x p := by
  induction s with
  | skip => exact absurd hx (Analysis.not_mem_exposed_nothing x)
  | assign name expr =>
    rw [analyze_assign] at hx
    exact ⟨_, .assign name expr, Expr.readsFirst_accesses_append.mpr (Or.inl hx)⟩
  | branch cond yes no ihy ihn =>
    rw [analyze_branch, NameSet.mem_union, NameSet.mem_union] at hx
    rcases hx with (hc | hy) | hn
    · obtain ⟨p, hp⟩ := yes.exists_path
      exact ⟨_, .branchYes hp, Expr.readsFirst_accesses_append.mpr (Or.inl hc)⟩
    · obtain ⟨p, hp, hr⟩ := ihy hy
      exact ⟨_, .branchYes hp, Expr.readsFirst_accesses_append.mpr (Or.inr hr)⟩
    · obtain ⟨p, hp, hr⟩ := ihn hn
      exact ⟨_, .branchNo hp, Expr.readsFirst_accesses_append.mpr (Or.inr hr)⟩
  | loop cond body ih =>
    rw [analyze_loop, NameSet.mem_union] at hx
    rcases hx with hc | hb
    · exact ⟨_, .loopEnds cond body, Expr.readsFirst_accesses.mpr hc⟩
    · -- one round of the body is enough
      obtain ⟨p, hp, hr⟩ := ih hb
      refine ⟨_, .loopNext hp (.loopEnds cond body), ?_⟩
      rw [List.append_assoc]
      exact Expr.readsFirst_accesses_append.mpr (Or.inr (readsFirst_append.mpr (Or.inl hr)))
  | seq first second ih1 ih2 =>
    rw [analyze_seq, Analysis.mem_exposed_andThen] at hx
    rcases hx with h1 | ⟨h2, hd⟩
    · obtain ⟨p, hp, hr⟩ := ih1 h1
      obtain ⟨q, hq⟩ := second.exists_path
      exact ⟨_, .seq hp hq, readsFirst_append.mpr (Or.inl hr)⟩
    · obtain ⟨p, hp, hw⟩ := exists_path_not_write hd
      obtain ⟨q, hq, hr⟩ := ih2 h2
      exact ⟨_, .seq hp hq, readsFirst_append.mpr (Or.inr ⟨hw, hr⟩)⟩

/-- **The analysis is exact over paths.**  A name is exposed if and only if some path reads
it before any write of it, and defined if and only if every path writes it; a statement is
safe if and only if no path reads any name first. -/
theorem analyze_exact (s : Stmt) :
    (∀ x, x ∈ s.analyze.exposed ↔ ∃ p, Path s p ∧ ReadsFirst x p) ∧
    (∀ x, x ∈ s.analyze.defined ↔ ∀ p, Path s p → Access.write x ∈ p) ∧
    (s.analyze.isSafe = true ↔ ¬∃ x p, Path s p ∧ ReadsFirst x p) := by
  have hexposed : ∀ x, x ∈ s.analyze.exposed ↔ ∃ p, Path s p ∧ ReadsFirst x p := fun x =>
    ⟨exists_path_readsFirst, fun ⟨_, hp, hr⟩ => hp.mem_exposed hr⟩
  refine ⟨hexposed, fun x => ⟨fun hx p hp => hp.writes_of_mem_defined hx, fun h => ?_⟩, ?_⟩
  · by_cases hx : x ∈ s.analyze.defined
    · exact hx
    · obtain ⟨p, hp, hw⟩ := exists_path_not_write hx
      exact absurd (h p hp) hw
  · rw [Analysis.isSafe, NameSet.isEmpty_iff]
    constructor
    · rintro h ⟨x, hx⟩
      exact h x ((hexposed x).mpr hx)
    · intro h x hx
      exact h ⟨x, (hexposed x).mp hx⟩

end Stmt

end WhileLang
