import WhileLang.Grammar
import WhileLang.Stmt.Parser

/-!
# What has been read of a program

An unfinished program is the place where the next token goes, inside what is open around it.
`Unfinished.HasRead` relates it to the tokens that led there: those that opened what is open
(`StmtContext.OpenedBy`, `ExprContext.OpenedBy`), then those of the operand or statement that
has just been completed.  It is stated by the grammar alone.

`HasRead.step` says that every token that fits keeps this true, and `HasRead.finish` that a
program that can end is a statement of the grammar.  When an expression or a chain ends, what
is open inside it is closed at once, and the tokens are split anew (`OpenedBy.plug`).
-/

namespace WhileLang

open Grammar

/-! ### Contexts -/

/-- The tokens lead from the beginning of a program to the place of a statement. -/
inductive StmtContext.OpenedBy : StmtContext → List Token → Prop
  | top : OpenedBy .top []
  | thenOf {outer : StmtContext} {ts us : List Token} {cond : Expr} (ho : OpenedBy outer ts)
      (hc : Expression us cond) :
      OpenedBy (.thenOf cond outer) (ts ++ .keyword .ifWord :: (us ++ [.keyword .thenWord]))
  | elseOf {outer : StmtContext} {ts us vs : List Token} {cond : Expr} {yes : Stmt}
      (ho : OpenedBy outer ts) (hc : Expression us cond) (hy : Statement vs yes) :
      OpenedBy (.elseOf cond yes outer)
        (ts ++ .keyword .ifWord :: (us ++ .keyword .thenWord :: (vs ++ [.keyword .elseWord])))
  | bodyOf {outer : StmtContext} {ts us : List Token} {cond : Expr} (ho : OpenedBy outer ts)
      (hc : Expression us cond) :
      OpenedBy (.bodyOf cond outer) (ts ++ .keyword .whileWord :: (us ++ [.keyword .doWord]))
  | after {outer : StmtContext} {ts us : List Token} {first : Stmt} (ho : OpenedBy outer ts)
      (h1 : Simple us first) : OpenedBy (.after first outer) (ts ++ (us ++ [.semi]))

inductive ExprContext.OpenedBy : ExprContext → List Token → Prop
  | assigned {outer : StmtContext} {ts : List Token} (name : String) (ho : outer.OpenedBy ts) :
      OpenedBy (.assigned name outer) (ts ++ [.var name, .assign])
  | branchCond {outer : StmtContext} {ts : List Token} (ho : outer.OpenedBy ts) :
      OpenedBy (.branchCond outer) (ts ++ [.keyword .ifWord])
  | loopCond {outer : StmtContext} {ts : List Token} (ho : outer.OpenedBy ts) :
      OpenedBy (.loopCond outer) (ts ++ [.keyword .whileWord])
  | paren {outer : ExprContext} {ts : List Token} (ho : OpenedBy outer ts) :
      OpenedBy (.paren outer) (ts ++ [.lparen])
  | rightOf {outer : ExprContext} {ts us : List Token} {left : Expr} (op : Operator)
      (ho : OpenedBy outer ts) (hl : Operand us left) :
      OpenedBy (.rightOf left op outer) (ts ++ (us ++ [.op op]))

/-- The tokens of a chain that ends with a statement, split in front of the chain. -/
theorem StmtContext.OpenedBy.plug {ctx : StmtContext} {ts us : List Token} {s : Stmt}
    (ho : ctx.OpenedBy ts) (hs : Statement us s) :
    ∃ ts' us', (ctx.plug s).2.OpenedBy ts' ∧ Statement us' (ctx.plug s).1 ∧
      ts ++ us = ts' ++ us' := by
  induction ho generalizing us s with
  | top => exact ⟨_, us, .top, hs, rfl⟩
  | thenOf ho hc => exact ⟨_, us, .thenOf ho hc, hs, rfl⟩
  | elseOf ho hc hy => exact ⟨_, us, .elseOf ho hc hy, hs, rfl⟩
  | bodyOf ho hc => exact ⟨_, us, .bodyOf ho hc, hs, rfl⟩
  | @after outer ts vs first _ h1 ih =>
    obtain ⟨ts', us', ho', hs', he⟩ := ih (Statement.seq h1 hs)
    refine ⟨ts', us', ho', hs', ?_⟩
    rw [← he, List.append_assoc, List.append_assoc, List.singleton_append]

theorem ExprContext.OpenedBy.plug {ctx : ExprContext} {ts us : List Token} {e : Expr}
    (ho : ctx.OpenedBy ts) (he : Expression us e) :
    ∃ ts' us', (ctx.plug e).2.OpenedBy ts' ∧ Expression us' (ctx.plug e).1 ∧
      ts ++ us = ts' ++ us' := by
  induction ho generalizing us e with
  | assigned name ho => exact ⟨_, us, .assigned name ho, he, rfl⟩
  | branchCond ho => exact ⟨_, us, .branchCond ho, he, rfl⟩
  | loopCond ho => exact ⟨_, us, .loopCond ho, he, rfl⟩
  | paren ho => exact ⟨_, us, .paren ho, he, rfl⟩
  | @rightOf outer ts vs left op _ hl ih =>
    obtain ⟨ts', us', ho', he', hsplit⟩ := ih (Expression.bin op hl he)
    refine ⟨ts', us', ho', he', ?_⟩
    rw [← hsplit, List.append_assoc, List.append_assoc, List.singleton_append]

/-! ### Steps -/

namespace Unfinished

/-- The tokens have been read into the unfinished program. -/
inductive HasRead : Unfinished → List Token → Prop
  | statement {ctx : StmtContext} {ts : List Token} (ho : ctx.OpenedBy ts) :
      HasRead (.statement ctx) ts
  | target {ctx : StmtContext} {ts : List Token} (name : String) (ho : ctx.OpenedBy ts) :
      HasRead (.target name ctx) (ts ++ [.var name])
  | operand {ctx : ExprContext} {ts : List Token} (ho : ctx.OpenedBy ts) :
      HasRead (.operand ctx) ts
  | operator {ctx : ExprContext} {ts us : List Token} {e : Expr} (ho : ctx.OpenedBy ts)
      (he : Operand us e) : HasRead (.operator e ctx) (ts ++ us)
  | follow {ctx : StmtContext} {ts us : List Token} {s : Stmt} (ho : ctx.OpenedBy ts)
      (hs : Simple us s) : HasRead (.follow s ctx) (ts ++ us)

theorem hasRead_stepStatement {ctx : StmtContext} {ts : List Token} {t : Token} {u : Unfinished}
    (ho : ctx.OpenedBy ts) (h : stepStatement ctx t = some u) : u.HasRead (ts ++ [t]) := by
  unfold stepStatement at h
  split at h
  · cases h; exact .target _ ho
  · cases h; exact .operand (.branchCond ho)
  · cases h; exact .operand (.loopCond ho)
  · cases h; exact .follow ho .skip
  · cases h

theorem hasRead_stepOperand {ctx : ExprContext} {ts : List Token} {t : Token} {u : Unfinished}
    (ho : ctx.OpenedBy ts) (h : stepOperand ctx t = some u) : u.HasRead (ts ++ [t]) := by
  unfold stepOperand at h
  split at h
  · cases h; exact .operator ho (.var _)
  · cases h; exact .operator ho (.number _)
  · cases h; exact .operator ho .true
  · cases h; exact .operator ho .false
  · cases h; exact .operand (.paren ho)
  · cases h

theorem hasRead_stepFollow {ctx : StmtContext} {ts us : List Token} {s : Stmt} {t : Token}
    {u : Unfinished} (ho : ctx.OpenedBy ts) (hs : Simple us s)
    (h : stepFollow s ctx t = some u) : u.HasRead (ts ++ us ++ [t]) := by
  obtain ⟨ts', us', ho', hs', hsplit⟩ := ho.plug (Statement.simple hs)
  unfold stepFollow at h
  split at h
  · cases h
    rw [List.append_assoc]
    exact .statement (.after ho hs)
  · -- `else` closes the first side of a branch
    split at h
    · next yes cond outer hp =>
      cases h
      rw [hp] at ho' hs'
      cases ho' with
      | @thenOf _ pre cs _ hb hc =>
        have hread := HasRead.statement (.elseOf hb hc hs')
        rw [hsplit]
        simpa using hread
    · cases h
  · -- `endif` closes the second side, and with it the branch
    split at h
    · next no cond yes outer hp =>
      cases h
      rw [hp] at ho' hs'
      cases ho' with
      | elseOf hb hc hy =>
        have hread := HasRead.follow hb (.branch hc hy hs')
        rw [hsplit]
        simpa using hread
    · cases h
  · -- `endwhile` closes the body, and with it the loop
    split at h
    · next body cond outer hp =>
      cases h
      rw [hp] at ho' hs'
      cases ho' with
      | bodyOf hb hc =>
        have hread := HasRead.follow hb (.loop hc hs')
        rw [hsplit]
        simpa using hread
    · cases h
  · cases h

theorem hasRead_stepOperator {ctx : ExprContext} {ts us : List Token} {e : Expr} {t : Token}
    {u : Unfinished} (ho : ctx.OpenedBy ts) (he : Operand us e)
    (h : stepOperator e ctx t = some u) : u.HasRead (ts ++ us ++ [t]) := by
  obtain ⟨ts', us', ho', he', hsplit⟩ := ho.plug (Expression.operand he)
  unfold stepOperator at h
  split at h
  · next op =>
    cases h
    rw [List.append_assoc]
    exact .operand (.rightOf op ho he)
  · -- any other token ends the expression, and what it does depends on the expression's place
    rw [hsplit]
    split at h
    · next e name outer hp _ =>
      rw [hp] at ho' he'
      cases ho' with
      | assigned _ hb =>
        have hread := hasRead_stepFollow hb (.assign name he') h
        simpa using hread
    · next e outer hp _ =>
      cases h
      rw [hp] at ho' he'
      cases ho' with
      | branchCond hb =>
        have hread := HasRead.statement (.thenOf hb he')
        simpa using hread
    · next e outer hp _ =>
      cases h
      rw [hp] at ho' he'
      cases ho' with
      | loopCond hb =>
        have hread := HasRead.statement (.bodyOf hb he')
        simpa using hread
    · next e outer hp _ =>
      cases h
      rw [hp] at ho' he'
      cases ho' with
      | paren hb =>
        have hread := HasRead.operator hb (.paren he')
        simpa using hread
    · cases h

/-- A token that fits has been read together with those before it. -/
theorem HasRead.step {u u' : Unfinished} {ts : List Token} {t : Token} (hr : u.HasRead ts)
    (h : u.step t = some u') : u'.HasRead (ts ++ [t]) := by
  cases hr with
  | statement ho => exact hasRead_stepStatement ho h
  | operand ho => exact hasRead_stepOperand ho h
  | operator ho he => exact hasRead_stepOperator ho he h
  | follow ho hs => exact hasRead_stepFollow ho hs h
  | target name ho =>
    rw [Unfinished.step] at h
    split at h
    · next ht =>
      cases h
      rw [ht, List.append_assoc]
      exact .operand (.assigned name ho)
    · cases h

theorem hasRead_start : start.HasRead [] := .statement .top

/-! ### The end of a program -/

theorem statement_of_whole? {ctx : StmtContext} {ts us : List Token} {s p : Stmt}
    (ho : ctx.OpenedBy ts) (hs : Simple us s) (h : finish?.whole? (ctx.plug s) = some p) :
    Statement (ts ++ us) p := by
  obtain ⟨ts', us', ho', hs', hsplit⟩ := ho.plug (Statement.simple hs)
  unfold finish?.whole? at h
  split at h
  · next s' hp =>
    cases h
    rw [hp] at ho' hs'
    cases ho'
    rw [hsplit]
    exact hs'
  · cases h

theorem HasRead.finish {u : Unfinished} {ts : List Token} {p : Stmt} (hr : u.HasRead ts)
    (h : u.finish? = some p) : Statement ts p := by
  cases hr with
  | statement => cases h
  | target => cases h
  | operand => cases h
  | follow ho hs => exact statement_of_whole? ho hs h
  | operator ho he =>
    obtain ⟨ts', us', ho', he', hsplit⟩ := ho.plug (Expression.operand he)
    rw [finish?] at h
    split at h
    · next e name outer hp =>
      rw [hp] at ho' he'
      cases ho' with
      | assigned _ hb =>
        have hs := statement_of_whole? hb (.assign name he') h
        rw [hsplit]
        simpa using hs
    · cases h

end Unfinished

end WhileLang
