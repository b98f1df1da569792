import WhileLang.Proofs.Reading.Completeness

/-!
# Beginnings of programs

Tokens are viable when they are the beginning of some program.  The reader goes on exactly as
long as they are (`viable_iff_steps`), so it never takes a token that no program has at that
place, and never refuses one that some program has.

That what has been read is viable is a matter of closing what is open.  A context can be
closed behind any statement or expression that is put in its place
(`StmtContext.OpenedBy.viable`, `ExprContext.OpenedBy.viable`), from the inside to the
outside and always with the shortest rest.
-/

namespace WhileLang

open Grammar

/-! ### Closing what is open -/

/-- The tokens in front of a statement, and the statement, are the beginning of a program. -/
theorem StmtContext.OpenedBy.viable {ctx : StmtContext} {ts us : List Token} {s : Stmt}
    (ho : ctx.OpenedBy ts) (hs : Statement us s) : Viable (ts ++ us) := by
  induction ho generalizing us s with
  | top => exact ⟨[], s, by simpa using hs⟩
  | thenOf _ hc ih =>
    have hclosed := ih (.simple (.branch hc hs (.simple .skip)))
    refine @Viable.of_append _ [.keyword .elseWord, .keyword .skipWord, .keyword .endifWord] ?_
    simpa using hclosed
  | elseOf _ hc hy ih =>
    have hclosed := ih (.simple (.branch hc hy hs))
    refine @Viable.of_append _ [.keyword .endifWord] ?_
    simpa using hclosed
  | bodyOf _ hc ih =>
    have hclosed := ih (.simple (.loop hc hs))
    refine @Viable.of_append _ [.keyword .endwhileWord] ?_
    simpa using hclosed
  | after _ h1 ih => simpa using ih (.seq h1 hs)

theorem ExprContext.OpenedBy.viable {ctx : ExprContext} {ts us : List Token} {e : Expr}
    (ho : ctx.OpenedBy ts) (he : Expression us e) : Viable (ts ++ us) := by
  induction ho generalizing us e with
  | assigned name ho => simpa using ho.viable (.simple (.assign name he))
  | branchCond ho =>
    have hclosed := ho.viable (.simple (.branch he (.simple .skip) (.simple .skip)))
    refine @Viable.of_append _ [.keyword .thenWord, .keyword .skipWord, .keyword .elseWord,
      .keyword .skipWord, .keyword .endifWord] ?_
    simpa using hclosed
  | loopCond ho =>
    have hclosed := ho.viable (.simple (.loop he (.simple .skip)))
    refine @Viable.of_append _ [.keyword .doWord, .keyword .skipWord, .keyword .endwhileWord] ?_
    simpa using hclosed
  | paren _ ih =>
    have hclosed := ih (.operand (.paren he))
    refine @Viable.of_append _ [.rparen] ?_
    simpa using hclosed
  | rightOf op _ hl ih => simpa using ih (.bin op hl he)

namespace Unfinished

theorem HasRead.viable {u : Unfinished} {ts : List Token} (hr : u.HasRead ts) : Viable ts := by
  cases hr with
  | statement ho => exact (ho.viable (.simple .skip)).of_append
  | target name ho =>
    have hclosed := ho.viable (.simple (.assign name (.operand .true)))
    refine @Viable.of_append _ [.assign, .keyword .trueWord] ?_
    simpa using hclosed
  | operand ho => exact (ho.viable (.operand .true)).of_append
  | operator ho he => exact ho.viable (.operand he)
  | follow ho hs => exact ho.viable (.simple hs)

theorem steps_of_append {u u' : Unfinished} {ts us : List Token}
    (h : u.steps (ts ++ us) = some u') : ∃ v, u.steps ts = some v := by
  induction ts generalizing u with
  | nil => exact ⟨u, rfl⟩
  | cons t ts ih =>
    cases hs : u.step t with
    | none =>
      rw [List.cons_append, steps_cons_of_none hs] at h
      cases h
    | some v =>
      rw [List.cons_append, steps_cons hs] at h
      rw [steps_cons hs]
      exact ih h

end Unfinished

theorem viable_iff_steps {ts : List Token} :
    Viable ts ↔ ∃ u, Unfinished.start.steps ts = some u := by
  constructor
  · rintro ⟨rest, s, hs⟩
    obtain ⟨u, hu, _⟩ := hs.exists_finish
    exact Unfinished.steps_of_append hu
  · rintro ⟨u, hu⟩
    exact (Unfinished.hasRead_start.steps hu).viable

/-- A token that does not fit behind others makes them the beginning of no program. -/
theorem not_viable_of_step_eq_none {u : Unfinished} {ts : List Token} {t : Token}
    (hu : Unfinished.start.steps ts = some u) (ht : u.step t = none) : ¬Viable (ts ++ [t]) := by
  intro hv
  obtain ⟨v, hv⟩ := viable_iff_steps.mp hv
  rw [Unfinished.steps_append hu, Unfinished.steps_cons_of_none ht] at hv
  cases hv

end WhileLang
