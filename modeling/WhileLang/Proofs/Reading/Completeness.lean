import WhileLang.Proofs.Reading.Soundness

/-!
# Every program is read

`Unfinished.steps` reads several tokens in a row.  Each class of the grammar has a place
where its tokens are expected, and from there all of them fit, whatever is open around it:
those of an operand end in that operand, and those of an expression in an operand that
completes the expression when it is closed (`Operand.steps`, `Expression.steps`); those of a
simple statement end in that statement, and those of a statement in one that completes it
(`Simple.steps`, `Statement.steps`).

An assignment is not closed before the token behind it has been seen.  `Completes` says that
an unfinished program goes on as if it were, which is the case for every token but an
operator.
-/

namespace WhileLang

open Grammar

namespace Unfinished

/-- The unfinished program after some more tokens, if all of them fit. -/
def steps : Unfinished → List Token → Option Unfinished
  | u, [] => some u
  | u, t :: ts =>
    match u.step t with
    | some u' => u'.steps ts
    | none => none

theorem steps_cons {u u' : Unfinished} {t : Token} (h : u.step t = some u') (ts : List Token) :
    u.steps (t :: ts) = u'.steps ts := by
  rw [steps, h]

theorem steps_cons_of_none {u : Unfinished} {t : Token} (h : u.step t = none) (ts : List Token) :
    u.steps (t :: ts) = none := by
  rw [steps, h]

theorem steps_append {u u' : Unfinished} {ts : List Token} (h : u.steps ts = some u')
    (us : List Token) : u.steps (ts ++ us) = u'.steps us := by
  induction ts generalizing u with
  | nil => cases h; rfl
  | cons t ts ih =>
    cases hs : u.step t with
    | none =>
      rw [steps_cons_of_none hs] at h
      cases h
    | some v =>
      rw [steps_cons hs] at h
      rw [List.cons_append, steps_cons hs, ih h]

theorem HasRead.steps {u u' : Unfinished} {ts us : List Token} (hr : u.HasRead ts)
    (h : u.steps us = some u') : u'.HasRead (ts ++ us) := by
  induction us generalizing u ts with
  | nil =>
    cases h
    rwa [List.append_nil]
  | cons t us ih =>
    cases hs : u.step t with
    | none =>
      rw [steps_cons_of_none hs] at h
      cases h
    | some v =>
      rw [steps_cons hs] at h
      have htail := ih (hr.step hs) h
      rwa [List.append_assoc, List.singleton_append] at htail

end Unfinished

open Unfinished

/-! ### Expressions -/

mutual

theorem Grammar.Operand.steps : ∀ {ts : List Token} {e : Expr}, Operand ts e →
    ∀ ctx : ExprContext, (Unfinished.operand ctx).steps ts = some (.operator e ctx)
  | _, _, .var name, ctx => rfl
  | _, _, .number n, ctx => rfl
  | _, _, .true, ctx => rfl
  | _, _, .false, ctx => rfl
  | _, _, @Operand.paren ts e h, ctx => by
    obtain ⟨e', ctx', hs, hp⟩ := Grammar.Expression.steps h (.paren ctx)
    have hinner : (Unfinished.operand ctx).steps (.lparen :: ts) = some (.operator e' ctx') := hs
    have hclose : (Unfinished.operator e' ctx').step .rparen = some (.operator e ctx) := by
      simp only [Unfinished.step, stepOperator, hp, ExprContext.plug]
    rw [steps_append hinner, steps_cons hclose]
    rfl

/-- The tokens of an expression are read where an operand is expected, up to the last operand
of the expression. -/
theorem Grammar.Expression.steps : ∀ {ts : List Token} {e : Expr}, Expression ts e →
    ∀ ctx : ExprContext, ∃ e' ctx',
      (Unfinished.operand ctx).steps ts = some (.operator e' ctx') ∧ ctx'.plug e' = ctx.plug e
  | _, e, .operand h, ctx => ⟨e, ctx, Grammar.Operand.steps h ctx, rfl⟩
  | _, _, @Expression.bin _ _ left _ op hl hr, ctx => by
    obtain ⟨e', ctx', hs, hp⟩ := Grammar.Expression.steps hr (.rightOf left op ctx)
    refine ⟨e', ctx', ?_, hp⟩
    have hop : (Unfinished.operator left ctx).step (.op op) =
        some (.operand (.rightOf left op ctx)) := rfl
    rw [steps_append (Grammar.Operand.steps hl ctx), steps_cons hop, hs]

end

/-! ### Statements -/

namespace Unfinished

/-- The unfinished program goes on as one in which the statement is complete. -/
inductive Completes : Unfinished → Stmt → StmtContext → Prop
  | follow (s : Stmt) (ctx : StmtContext) : Completes (.follow s ctx) s ctx
  | assign {e e' : Expr} {ectx : ExprContext} {name : String} {ctx : StmtContext}
      (hp : ectx.plug e = (e', .assigned name ctx)) :
      Completes (.operator e ectx) (.assign name e') ctx

theorem Completes.step {u : Unfinished} {s : Stmt} {ctx : StmtContext} (h : u.Completes s ctx)
    {t : Token} (ht : ∀ op, t ≠ .op op) : u.step t = stepFollow s ctx t := by
  cases h with
  | follow => rfl
  | assign hp =>
    cases t with
    | op op => exact absurd rfl (ht op)
    | _ => simp only [Unfinished.step, stepOperator, hp]

theorem Completes.finish? {u : Unfinished} {s : Stmt} {ctx : StmtContext}
    (h : u.Completes s ctx) : u.finish? = finish?.whole? (ctx.plug s) := by
  cases h with
  | follow => rfl
  | assign hp => rw [Unfinished.finish?, hp]

end Unfinished

mutual

theorem Grammar.Simple.steps : ∀ {ts : List Token} {s : Stmt}, Simple ts s →
    ∀ ctx : StmtContext,
      ∃ u, (Unfinished.statement ctx).steps ts = some u ∧ u.Completes s ctx
  | _, _, .skip, ctx => ⟨.follow .skip ctx, rfl, .follow .skip ctx⟩
  | _, _, .assign name he, ctx => by
    obtain ⟨e', ectx, hs, hp⟩ := he.steps (.assigned name ctx)
    exact ⟨.operator e' ectx, hs, .assign hp⟩
  | _, _, @Simple.branch ts us vs cond yes no hc hy hn, ctx => by
    obtain ⟨e', ectx, hs, hp⟩ := hc.steps (.branchCond ctx)
    obtain ⟨u, sy, cy, hu, hcy, hpy⟩ := Grammar.Statement.steps hy (.thenOf cond ctx)
    obtain ⟨v, sn, cn, hv, hcn, hpn⟩ := Grammar.Statement.steps hn (.elseOf cond yes ctx)
    have hif : (Unfinished.statement ctx).steps (.keyword .ifWord :: ts) =
        some (.operator e' ectx) := hs
    have hthen : (Unfinished.operator e' ectx).step (.keyword .thenWord) =
        some (.statement (.thenOf cond ctx)) := by
      simp only [Unfinished.step, stepOperator, hp, ExprContext.plug]
    have helse : u.step (.keyword .elseWord) = some (.statement (.elseOf cond yes ctx)) := by
      rw [hcy.step (fun op => Token.noConfusion), stepFollow, hpy]
      rfl
    have hendif : v.step (.keyword .endifWord) = some (.follow (.branch cond yes no) ctx) := by
      rw [hcn.step (fun op => Token.noConfusion), stepFollow, hpn]
      rfl
    refine ⟨.follow (.branch cond yes no) ctx, ?_, .follow _ ctx⟩
    rw [List.append_assoc, List.append_assoc, steps_append hif, List.cons_append,
      steps_cons hthen, steps_append hu, List.cons_append, steps_cons helse, steps_append hv,
      steps_cons hendif]
    rfl
  | _, _, @Simple.loop ts us cond body hc hb, ctx => by
    obtain ⟨e', ectx, hs, hp⟩ := hc.steps (.loopCond ctx)
    obtain ⟨u, sb, cb, hu, hcb, hpb⟩ := Grammar.Statement.steps hb (.bodyOf cond ctx)
    have hwhile : (Unfinished.statement ctx).steps (.keyword .whileWord :: ts) =
        some (.operator e' ectx) := hs
    have hdo : (Unfinished.operator e' ectx).step (.keyword .doWord) =
        some (.statement (.bodyOf cond ctx)) := by
      simp only [Unfinished.step, stepOperator, hp, ExprContext.plug]
    have hend : u.step (.keyword .endwhileWord) = some (.follow (.loop cond body) ctx) := by
      rw [hcb.step (fun op => Token.noConfusion), stepFollow, hpb]
      rfl
    refine ⟨.follow (.loop cond body) ctx, ?_, .follow _ ctx⟩
    rw [List.append_assoc, steps_append hwhile, List.cons_append, steps_cons hdo,
      steps_append hu, steps_cons hend]
    rfl

/-- The tokens of a statement are read where a statement is expected, up to the last simple
statement of the chain. -/
theorem Grammar.Statement.steps : ∀ {ts : List Token} {s : Stmt}, Statement ts s →
    ∀ ctx : StmtContext, ∃ u s' ctx', (Unfinished.statement ctx).steps ts = some u ∧
      u.Completes s' ctx' ∧ ctx'.plug s' = ctx.plug s
  | _, s, .simple h, ctx => by
    obtain ⟨u, hu, hc⟩ := Grammar.Simple.steps h ctx
    exact ⟨u, s, ctx, hu, hc, rfl⟩
  | _, _, @Statement.seq _ _ first _ h1 h2, ctx => by
    obtain ⟨u, hu, hc⟩ := Grammar.Simple.steps h1 ctx
    obtain ⟨v, s', ctx', hv, hc', hp⟩ := Grammar.Statement.steps h2 (.after first ctx)
    have hsemi : u.step .semi = some (.statement (.after first ctx)) := by
      rw [hc.step (fun op => Token.noConfusion)]
      rfl
    refine ⟨v, s', ctx', ?_, hc', hp⟩
    rw [steps_append hu, steps_cons hsemi, hv]

end

/-! ### Programs -/

theorem Grammar.Statement.exists_finish {ts : List Token} {s : Stmt} (h : Statement ts s) :
    ∃ u, Unfinished.start.steps ts = some u ∧ u.finish? = some s := by
  obtain ⟨u, s', ctx', hu, hc, hp⟩ := h.steps .top
  refine ⟨u, hu, ?_⟩
  rw [hc.finish?, hp]
  rfl

/-- The tokens that are read to an end are the tokens of a program, and of no other one. -/
theorem statement_iff_steps {ts : List Token} {s : Stmt} :
    Statement ts s ↔ ∃ u, Unfinished.start.steps ts = some u ∧ u.finish? = some s := by
  constructor
  · intro h
    exact h.exists_finish
  · rintro ⟨u, hu, hf⟩
    exact (hasRead_start.steps hu).finish hf

/-- **The grammar is unambiguous.** -/
theorem Grammar.Statement.unique_tree {ts : List Token} {s s' : Stmt} (h : Statement ts s)
    (h' : Statement ts s') : s = s' := by
  obtain ⟨u, hu, hf⟩ := h.exists_finish
  obtain ⟨u', hu', hf'⟩ := h'.exists_finish
  rw [hu] at hu'
  cases hu'
  rw [hf] at hf'
  exact Option.some.inj hf'

end WhileLang
