import WhileLang.Stmt
import WhileLang.Token

/-!
# The grammar

The grammar of programs as a relation between lists of tokens and trees, without a
direction of reading and without a stack.  `Operand`, `Expression`, `Simple` and
`Statement` are its four classes.  Parentheses leave no node; operators and chains nest
to the right.
-/

namespace WhileLang.Grammar

mutual

/-- The tokens are an operand with the given tree. -/
inductive Operand : List Token → Expr → Prop
  | var (name : String) : Operand [.var name] (.var name)
  | number (n : Nat) : Operand [.number n] (.lit (.int n))
  | true : Operand [.keyword .trueWord] (.lit (.bool true))
  | false : Operand [.keyword .falseWord] (.lit (.bool false))
  | paren {ts : List Token} {e : Expr} (h : Expression ts e) :
      Operand (.lparen :: ts ++ [.rparen]) e

inductive Expression : List Token → Expr → Prop
  | operand {ts : List Token} {e : Expr} (h : Operand ts e) : Expression ts e
  | bin {ts us : List Token} {left right : Expr} (op : Operator) (hl : Operand ts left)
      (hr : Expression us right) : Expression (ts ++ .op op :: us) (.bin op left right)

end

mutual

/-- The tokens are a statement other than a chain. -/
inductive Simple : List Token → Stmt → Prop
  | skip : Simple [.keyword .skipWord] .skip
  | assign (name : String) {ts : List Token} {e : Expr} (h : Expression ts e) :
      Simple (.var name :: .assign :: ts) (.assign name e)
  | branch {ts us vs : List Token} {cond : Expr} {yes no : Stmt} (hc : Expression ts cond)
      (hy : Statement us yes) (hn : Statement vs no) :
      Simple (.keyword .ifWord :: ts ++ .keyword .thenWord :: us ++ .keyword .elseWord :: vs
        ++ [.keyword .endifWord]) (.branch cond yes no)
  | loop {ts us : List Token} {cond : Expr} {body : Stmt} (hc : Expression ts cond)
      (hb : Statement us body) :
      Simple (.keyword .whileWord :: ts ++ .keyword .doWord :: us ++ [.keyword .endwhileWord])
        (.loop cond body)

inductive Statement : List Token → Stmt → Prop
  | simple {ts : List Token} {s : Stmt} (h : Simple ts s) : Statement ts s
  | seq {ts us : List Token} {first second : Stmt} (h1 : Simple ts first)
      (h2 : Statement us second) : Statement (ts ++ .semi :: us) (.seq first second)

end

/-- The tokens are the beginning of some program. -/
def Viable (ts : List Token) : Prop := ∃ rest s, Statement (ts ++ rest) s

theorem Viable.of_append {ts us : List Token} (h : Viable (ts ++ us)) : Viable ts := by
  obtain ⟨rest, s, hs⟩ := h
  exact ⟨us ++ rest, s, by rwa [← List.append_assoc]⟩

end WhileLang.Grammar
