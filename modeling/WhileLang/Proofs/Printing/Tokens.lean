import WhileLang.Grammar
import WhileLang.Stmt.WellFormed

/-!
# The tokens of a tree

`Expr.tokens` and `Stmt.tokens` are the tokens that a tree is written with: parentheses stand
only around an operation that is the left operand of another one, and a chain is its
statements with semicolons between them, whichever way it is nested.

The grammar derives a well-formed tree from its tokens, with its chains nested to the right
(`Expr.expression_tokens`, `Stmt.statement_tokens`).  It derives no other trees: a tree of the
grammar is well-formed if its tokens can be written, and nested to the right already
(`Grammar.Statement.wellFormed`, `Grammar.Statement.rightNest_eq`).
-/

namespace WhileLang

open Grammar

/-! ### Expressions -/

def Expr.tokens : Expr → List Token
  | .var name => [.var name]
  | .lit (.int n) => [.number n.toNat]
  | .lit (.bool true) => [.keyword .trueWord]
  | .lit (.bool false) => [.keyword .falseWord]
  | .bin op left right =>
    (if left.isBin then .lparen :: left.tokens ++ [.rparen] else left.tokens)
      ++ .op op :: right.tokens

/-- An expression is derived from its tokens, and as an operand if it is no operation. -/
theorem Expr.expression_tokens {e : Expr} (h : e.wellFormed = true) :
    Expression e.tokens e ∧ (e.isBin = false → Operand e.tokens e) := by
  induction e with
  | var name => exact ⟨.operand (.var name), fun _ => .var name⟩
  | lit value =>
    have hop : Operand (Expr.lit value).tokens (.lit value) := by
      cases value with
      | int n =>
        have hn : ((n.toNat : Nat) : Int) = n := Int.toNat_of_nonneg (of_decide_eq_true h)
        have hnumber := Operand.number n.toNat
        rwa [hn] at hnumber
      | bool b =>
        cases b with
        | true => exact .true
        | false => exact .false
    exact ⟨.operand hop, fun _ => hop⟩
  | bin op left right ihl ihr =>
    obtain ⟨hl, hr⟩ := Bool.and_eq_true_iff.mp h
    refine ⟨?_, fun hb => by cases hb⟩
    rw [Expr.tokens]
    by_cases hb : left.isBin = true
    · rw [if_pos hb]
      exact .bin op (.paren (ihl hl).1) (ihr hr).1
    · rw [if_neg hb]
      exact .bin op ((ihl hl).2 (Bool.eq_false_iff.mpr hb)) (ihr hr).1

/-! ### Statements -/

def Stmt.tokens : Stmt → List Token
  | .skip => [.keyword .skipWord]
  | .assign name expr => .var name :: .assign :: expr.tokens
  | .branch cond yes no =>
    .keyword .ifWord :: cond.tokens ++ .keyword .thenWord :: yes.tokens
      ++ .keyword .elseWord :: no.tokens ++ [.keyword .endifWord]
  | .loop cond body =>
    .keyword .whileWord :: cond.tokens ++ .keyword .doWord :: body.tokens
      ++ [.keyword .endwhileWord]
  | .seq first second => first.tokens ++ .semi :: second.tokens

theorem Grammar.Simple.append_eq {ts : List Token} {s : Stmt} (h : Simple ts s) (t : Stmt) :
    Stmt.rightNest.append s t = .seq s t := by
  cases h <;> rfl

theorem Grammar.Statement.append {ts us : List Token} {s t : Stmt} (hs : Statement ts s)
    (ht : Statement us t) : Statement (ts ++ .semi :: us) (Stmt.rightNest.append s t) := by
  cases hs with
  | simple h =>
    rw [h.append_eq]
    exact .seq h ht
  | seq h1 h2 =>
    rw [List.append_assoc, List.cons_append, Stmt.rightNest.append]
    exact .seq h1 (Grammar.Statement.append h2 ht)

/-- A statement is derived from its tokens, nested to the right. -/
theorem Stmt.statement_tokens {s : Stmt} (h : s.wellFormed = true) :
    Statement s.tokens s.rightNest := by
  induction s with
  | skip => exact .simple .skip
  | assign name expr =>
    exact .simple (.assign name (Expr.expression_tokens (Bool.and_eq_true_iff.mp h).2).1)
  | branch cond yes no ihy ihn =>
    obtain ⟨hcy, hn⟩ := Bool.and_eq_true_iff.mp h
    obtain ⟨hc, hy⟩ := Bool.and_eq_true_iff.mp hcy
    exact .simple (.branch (Expr.expression_tokens hc).1 (ihy hy) (ihn hn))
  | loop cond body ih =>
    obtain ⟨hc, hb⟩ := Bool.and_eq_true_iff.mp h
    exact .simple (.loop (Expr.expression_tokens hc).1 (ih hb))
  | seq first second ih1 ih2 =>
    obtain ⟨h1, h2⟩ := Bool.and_eq_true_iff.mp h
    exact (ih1 h1).append (ih2 h2)

/-! ### The trees of the grammar -/

/-- Whether a token can be written: a name has to be a word in capitals. -/
def Token.isWritable : Token → Bool
  | .var name => isName name
  | _ => true

mutual

theorem Grammar.Operand.wellFormed : ∀ {ts : List Token} {e : Expr}, Operand ts e →
    (∀ t ∈ ts, t.isWritable = true) → e.wellFormed = true
  | _, _, .var name, h => h _ List.mem_cons_self
  | _, _, .number n, _ => decide_eq_true (Int.natCast_nonneg n)
  | _, _, .true, _ => rfl
  | _, _, .false, _ => rfl
  | _, _, .paren he, h => Grammar.Expression.wellFormed he fun t ht => h t (by simp [ht])

theorem Grammar.Expression.wellFormed : ∀ {ts : List Token} {e : Expr}, Expression ts e →
    (∀ t ∈ ts, t.isWritable = true) → e.wellFormed = true
  | _, _, .operand ho, h => Grammar.Operand.wellFormed ho h
  | _, _, .bin op hl hr, h => Bool.and_eq_true_iff.mpr
    ⟨Grammar.Operand.wellFormed hl fun t ht => h t (by simp [ht]),
      Grammar.Expression.wellFormed hr fun t ht => h t (by simp [ht])⟩

end

mutual

theorem Grammar.Simple.wellFormed : ∀ {ts : List Token} {s : Stmt}, Simple ts s →
    (∀ t ∈ ts, t.isWritable = true) → s.wellFormed = true
  | _, _, .skip, _ => rfl
  | _, _, .assign name he, h => Bool.and_eq_true_iff.mpr
    ⟨h _ List.mem_cons_self, he.wellFormed fun t ht => h t (by simp [ht])⟩
  | _, _, .branch hc hy hn, h => Bool.and_eq_true_iff.mpr
    ⟨Bool.and_eq_true_iff.mpr ⟨hc.wellFormed fun t ht => h t (by simp [ht]),
      Grammar.Statement.wellFormed hy fun t ht => h t (by simp [ht])⟩,
      Grammar.Statement.wellFormed hn fun t ht => h t (by simp [ht])⟩
  | _, _, .loop hc hb, h => Bool.and_eq_true_iff.mpr
    ⟨hc.wellFormed fun t ht => h t (by simp [ht]),
      Grammar.Statement.wellFormed hb fun t ht => h t (by simp [ht])⟩

theorem Grammar.Statement.wellFormed : ∀ {ts : List Token} {s : Stmt}, Statement ts s →
    (∀ t ∈ ts, t.isWritable = true) → s.wellFormed = true
  | _, _, .simple hs, h => Grammar.Simple.wellFormed hs h
  | _, _, .seq h1 h2, h => Bool.and_eq_true_iff.mpr
    ⟨Grammar.Simple.wellFormed h1 fun t ht => h t (by simp [ht]),
      Grammar.Statement.wellFormed h2 fun t ht => h t (by simp [ht])⟩

end

mutual

theorem Grammar.Simple.rightNest_eq : ∀ {ts : List Token} {s : Stmt}, Simple ts s →
    s.rightNest = s
  | _, _, .skip => rfl
  | _, _, .assign .. => rfl
  | _, _, .branch hc hy hn => by
    rw [Stmt.rightNest, Grammar.Statement.rightNest_eq hy, Grammar.Statement.rightNest_eq hn]
  | _, _, .loop hc hb => by rw [Stmt.rightNest, Grammar.Statement.rightNest_eq hb]

theorem Grammar.Statement.rightNest_eq : ∀ {ts : List Token} {s : Stmt}, Statement ts s →
    s.rightNest = s
  | _, _, .simple h => Grammar.Simple.rightNest_eq h
  | _, _, .seq h1 h2 => by
    rw [Stmt.rightNest, Grammar.Simple.rightNest_eq h1, Grammar.Statement.rightNest_eq h2,
      h1.append_eq]

end

end WhileLang
