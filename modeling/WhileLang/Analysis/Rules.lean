import WhileLang.Analysis

/-!
# The rules of definite assignment

The analysis of a statement from the analyses of its parts, a rule for each form of
statement.  `Stmt.analyze` goes through a chain in one pass instead; the rules say what
that pass comes to, whichever way the chain is nested.
-/

namespace WhileLang

def Stmt.byRules : Stmt → Analysis
  | .skip => ⟨∅, ∅⟩
  | .assign name expr => ⟨expr.reads, .singleton name⟩
  | .branch cond yes no =>
    ⟨cond.reads ∪ yes.byRules.exposed ∪ no.byRules.exposed,
      yes.byRules.defined ∩ no.byRules.defined⟩
  | .loop cond body => ⟨cond.reads ∪ body.byRules.exposed, ∅⟩
  | .seq first second =>
    ⟨first.byRules.exposed ∪ (second.byRules.exposed \ first.byRules.defined),
      first.byRules.defined ∪ second.byRules.defined⟩

namespace Analysis

theorem andThen_assoc (a b c : Analysis) :
    (a.andThen b).andThen c = a.andThen (b.andThen c) := by
  refine Analysis.ext (NameSet.ext fun x => ?_) (NameSet.ext fun x => ?_)
  · simp only [andThen, NameSet.mem_union, NameSet.mem_diff]
    constructor
    · rintro ((h | ⟨h, h'⟩) | ⟨h, h'⟩)
      · exact .inl h
      · exact .inr ⟨.inl h, h'⟩
      · exact .inr ⟨.inr ⟨h, fun hb => h' (.inr hb)⟩, fun ha => h' (.inl ha)⟩
    · rintro (h | ⟨h | ⟨h, hb⟩, ha⟩)
      · exact .inl (.inl h)
      · exact .inl (.inr ⟨h, ha⟩)
      · exact .inr ⟨h, fun hx => hx.elim ha hb⟩
  · simp only [andThen, NameSet.mem_union]
    exact or_assoc

theorem nothing_andThen (a : Analysis) : nothing.andThen a = a :=
  Analysis.ext (NameSet.ext fun x => by simp [andThen, nothing])
    (NameSet.ext fun x => by simp [andThen, nothing])

theorem andThen_nothing (a : Analysis) : a.andThen nothing = a :=
  Analysis.ext (NameSet.ext fun x => by simp [andThen, nothing])
    (NameSet.ext fun x => by simp [andThen, nothing])

/-- The single pass adds to what came before the analysis by the rules. -/
theorem extend_eq_andThen_byRules (s : Stmt) (before : Analysis) :
    before.extend s = before.andThen s.byRules := by
  induction s generalizing before with
  | skip => exact (andThen_nothing before).symm
  | assign => rfl
  | branch cond yes no ihy ihn =>
    rw [extend, ihy, ihn, nothing_andThen, nothing_andThen, Stmt.byRules]
  | loop cond body ih => rw [extend, ih, nothing_andThen, Stmt.byRules]
  | seq first second ih1 ih2 => exact (ih2 _).trans (by rw [ih1, andThen_assoc]; rfl)

end Analysis

end WhileLang
