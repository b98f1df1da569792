import WhileLang.Proofs.Printing.Tokens
import WhileLang.Proofs.Reading.Completeness
import WhileLang.Stmt.Parser

/-!
# Reading behind a semicolon

Behind a program and a semicolon the reader is where it was at the beginning, but for what
waits around it: the statements of that program (`Grammar.Statement.steps_semi`).  An
unfinished program stands `inside` a context when its outermost statement stands there.

A context that is a `Front` makes whatever is put in its place a whole program.  The reader
inside such a context takes and refuses the same tokens, as nothing but a chain is open there:
no `else`, `endif` or `endwhile` finds there what it closes (`Unfinished.step_inside`).  So it
reads every token stream to the same end, and only the program has the front before it
(`Unfinished.read_inside`).
-/

namespace WhileLang

open Grammar

/-! ### Contexts around contexts -/

def StmtContext.inside : StmtContext → StmtContext → StmtContext
  | .top, outer => outer
  | .thenOf cond ctx, outer => .thenOf cond (ctx.inside outer)
  | .elseOf cond yes ctx, outer => .elseOf cond yes (ctx.inside outer)
  | .bodyOf cond ctx, outer => .bodyOf cond (ctx.inside outer)
  | .after first ctx, outer => .after first (ctx.inside outer)

def ExprContext.inside : ExprContext → StmtContext → ExprContext
  | .assigned name ctx, outer => .assigned name (ctx.inside outer)
  | .branchCond ctx, outer => .branchCond (ctx.inside outer)
  | .loopCond ctx, outer => .loopCond (ctx.inside outer)
  | .paren ctx, outer => .paren (ctx.inside outer)
  | .rightOf left op ctx, outer => .rightOf left op (ctx.inside outer)

def Unfinished.inside : Unfinished → StmtContext → Unfinished
  | .statement ctx, outer => .statement (ctx.inside outer)
  | .target name ctx, outer => .target name (ctx.inside outer)
  | .operand ctx, outer => .operand (ctx.inside outer)
  | .operator e ctx, outer => .operator e (ctx.inside outer)
  | .follow s ctx, outer => .follow s (ctx.inside outer)

variable {outer : StmtContext} {join : Stmt → Stmt}

theorem ExprContext.plug_inside (ctx : ExprContext) (e : Expr) :
    (ctx.inside outer).plug e = ((ctx.plug e).1, (ctx.plug e).2.inside outer) := by
  induction ctx generalizing e with
  | rightOf left op ctx ih => exact ih (.bin op left e)
  | _ => rfl

/-- Any statement in the place of the context makes a whole program, which `join` gives. -/
def StmtContext.Front (outer : StmtContext) (join : Stmt → Stmt) : Prop :=
  ∀ s, outer.plug s = (join s, .top)

namespace StmtContext.Front

/-- A chain inside a front is closed as it is without the front, unless it is the program. -/
theorem plug_inside (h : outer.Front join) (ctx : StmtContext) (s : Stmt) :
    (ctx.inside outer).plug s =
      match ctx.plug s with
      | (s', .top) => (join s', .top)
      | (s', ctx') => (s', ctx'.inside outer) := by
  induction ctx generalizing s with
  | top => exact h s
  | after first ctx ih => exact ih (.seq first s)
  | _ => rfl

theorem stepFollow_inside (h : outer.Front join) (s : Stmt) (ctx : StmtContext) (t : Token) :
    Unfinished.stepFollow s (ctx.inside outer) t =
      (Unfinished.stepFollow s ctx t).map fun u => u.inside outer := by
  have hplug := h.plug_inside ctx s
  cases t with
  | keyword k =>
    -- the keyword that closes a context is the same inside the front, and none closes the front
    cases k with
    | elseWord =>
      rw [Unfinished.stepFollow, Unfinished.stepFollow, hplug]
      obtain ⟨s', ctx'⟩ := ctx.plug s
      cases ctx' <;> rfl
    | endifWord =>
      rw [Unfinished.stepFollow, Unfinished.stepFollow, hplug]
      obtain ⟨s', ctx'⟩ := ctx.plug s
      cases ctx' <;> rfl
    | endwhileWord =>
      rw [Unfinished.stepFollow, Unfinished.stepFollow, hplug]
      obtain ⟨s', ctx'⟩ := ctx.plug s
      cases ctx' <;> rfl
    | _ => rfl
  | _ => rfl

theorem stepOperator_inside (h : outer.Front join) (e : Expr) (ctx : ExprContext) (t : Token) :
    Unfinished.stepOperator e (ctx.inside outer) t =
      (Unfinished.stepOperator e ctx t).map fun u => u.inside outer := by
  have hplug := @ExprContext.plug_inside outer ctx e
  cases t with
  | op op => rfl
  | keyword k =>
    simp only [Unfinished.stepOperator, hplug]
    obtain ⟨e', ctx'⟩ := ctx.plug e
    cases ctx' with
    | assigned name ctx' => exact h.stepFollow_inside (.assign name e') ctx' (.keyword k)
    | _ => cases k <;> rfl
  | _ =>
    simp only [Unfinished.stepOperator, hplug]
    obtain ⟨e', ctx'⟩ := ctx.plug e
    cases ctx' with
    | assigned name ctx' => exact h.stepFollow_inside (.assign name e') ctx' _
    | _ => rfl

end StmtContext.Front

namespace Unfinished

theorem step_inside (h : outer.Front join) (u : Unfinished) (t : Token) :
    (u.inside outer).step t = (u.step t).map fun u => u.inside outer := by
  cases u with
  | statement ctx =>
    cases t with
    | keyword k => cases k <;> rfl
    | _ => rfl
  | target name ctx =>
    show (if t = .assign then _ else none) = (if t = .assign then _ else none).map _
    split <;> rfl
  | operand ctx =>
    cases t with
    | keyword k => cases k <;> rfl
    | _ => rfl
  | operator e ctx => exact h.stepOperator_inside e ctx t
  | follow s ctx => exact h.stepFollow_inside s ctx t

theorem finish?_inside (h : outer.Front join) (u : Unfinished) :
    (u.inside outer).finish? = u.finish?.map join := by
  have hwhole : ∀ (s : Stmt) (ctx : StmtContext),
      finish?.whole? ((ctx.inside outer).plug s) = (finish?.whole? (ctx.plug s)).map join := by
    intro s ctx
    rw [h.plug_inside ctx s]
    obtain ⟨s', ctx'⟩ := ctx.plug s
    cases ctx' <;> rfl
  cases u with
  | operator e ctx =>
    have hplug := @ExprContext.plug_inside outer ctx e
    rw [inside, finish?, finish?, hplug]
    obtain ⟨e', ctx'⟩ := ctx.plug e
    cases ctx' with
    | assigned name ctx' => exact hwhole (.assign name e') ctx'
    | _ => rfl
  | follow s ctx => exact hwhole s ctx
  | _ => rfl

/-- **Inside a front every stream is read to the same end**, and a program gets the front
before it. -/
theorem read_inside (h : outer.Front join) (u : Unfinished) (stream : TokenStream) :
    (u.inside outer).read stream = (u.read stream).map join := by
  induction stream generalizing u with
  | finish offset line =>
    rw [read, read, finish?_inside h]
    cases u.finish? <;> rfl
  | fault cause offset => rfl
  | token t offset line rest ih =>
    rw [read, read, step_inside h]
    cases u.step t with
    | none => rfl
    | some v => exact ih v

end Unfinished

/-! ### Behind a program -/

/-- A program leads from the place of a statement to where a semicolon fits, and the semicolon
to the place where the rest of the chain goes. -/
theorem Grammar.Statement.steps_semi {ts : List Token} {s : Stmt} (h : Statement ts s)
    (ctx : StmtContext) : ∃ (u : Unfinished) (ctx' : StmtContext),
      (Unfinished.statement ctx).steps ts = some u ∧ u.step .semi = some (.statement ctx') ∧
        ∀ t, ctx'.plug t = ctx.plug (Stmt.rightNest.append s t) := by
  cases h with
  | simple h =>
    obtain ⟨u, hu, hc⟩ := h.steps ctx
    refine ⟨u, .after s ctx, hu, hc.step fun op => Token.noConfusion, fun t => ?_⟩
    rw [h.append_eq]
    rfl
  | @seq ts us first second h1 h2 =>
    obtain ⟨u, hu, hc⟩ := h1.steps ctx
    obtain ⟨v, ctx', hv, hctx', hplug⟩ := Grammar.Statement.steps_semi h2 (.after first ctx)
    have hsemi : u.step .semi = some (.statement (.after first ctx)) :=
      hc.step fun op => Token.noConfusion
    refine ⟨v, ctx', ?_, hctx', fun t => ?_⟩
    · rw [Unfinished.steps_append hu, Unfinished.steps_cons hsemi, hv]
    · rw [hplug]
      rfl

/-- A program and a semicolon lead from the beginning into a front. -/
theorem Grammar.Statement.exists_front {ts : List Token} {s : Stmt} (h : Statement ts s) :
    ∃ (outer : StmtContext) (u : Unfinished), Unfinished.start.steps ts = some u ∧
      u.step .semi = some (Unfinished.start.inside outer) ∧
      outer.Front (Stmt.rightNest.append s) := by
  obtain ⟨u, outer, hu, hsemi, hplug⟩ := h.steps_semi .top
  exact ⟨outer, u, hu, hsemi, hplug⟩

end WhileLang
