import WhileLang.Proofs.Printing.Tokens
import WhileLang.Proofs.Reading.Layout
import WhileLang.Stmt.Printer

/-!
# Printing and reading

The text of a well-formed tree lays out the tokens of the tree (`Expr.laid_render`,
`Stmt.laid_render`): behind every word and number of it stands a blank, a closing parenthesis,
a semicolon or nothing, and none of these goes on with a token (`Closes`).  So what is printed
is read again, nested to the right.

Only well-formed trees are read at all, since the tokens of a text can be written
(`Laid.isWritable`).  Both together make the texts of trees and the trees of texts the same,
up to the nesting of chains.
-/

namespace WhileLang

open Grammar

/-! ### Blanks between tokens -/

/-- No token goes on with the first of the characters. -/
def Closes (cs : List Char) : Prop := ∀ t : Token, t.EndsBefore cs

theorem closes_nil : Closes [] := Token.endsBefore_nil

theorem closes_cons {c : Char} (ha : c.isAlpha = false) (hd : c.isDigit = false) (he : c ≠ '=')
    (cs : List Char) : Closes (c :: cs) := by
  intro t
  refine Token.endsBefore_cons ?_
  cases t with
  | var => exact ha
  | keyword => exact ha
  | number => exact hd
  | op op =>
    cases op with
    | gt => exact beq_eq_false_iff_ne.mpr he
    | lt => exact beq_eq_false_iff_ne.mpr he
    | _ => rfl
  | _ => rfl

theorem closes_space (cs : List Char) : Closes (' ' :: cs) :=
  closes_cons rfl rfl (by decide) cs

theorem closes_rparen (cs : List Char) : Closes (')' :: cs) :=
  closes_cons rfl rfl (by decide) cs

theorem closes_semi (cs : List Char) : Closes (';' :: cs) :=
  closes_cons rfl rfl (by decide) cs

namespace Laid

variable {ts : List Token} {cs : List Char}

theorem space (h : Laid ts cs) : Laid ts (' ' :: cs) := .blank rfl h

theorem keyword (k : Keyword) (hc : Closes cs) (h : Laid ts cs) :
    Laid (.keyword k :: ts) (k.word.toList ++ cs) := .token (.keyword k) (hc _) h

theorem var {name : String} (hn : isName name = true) (hc : Closes cs) (h : Laid ts cs) :
    Laid (.var name :: ts) (name.toList ++ cs) := by
  obtain ⟨hne, hu⟩ := Bool.and_eq_true_iff.mp hn
  have hnil : name.toList ≠ [] := by simpa using hne
  have hspells := Token.Spells.var hnil (List.all_eq_true.mp hu)
  rw [String.ofList_toList] at hspells
  exact .token hspells (hc _) h

theorem number (n : Nat) (hc : Closes cs) (h : Laid ts cs) :
    Laid (.number n :: ts) (n.repr.toList ++ cs) := by
  have hdigits : ∀ c ∈ Nat.toDigits 10 n, c.isDigit = true :=
    fun c hc => Nat.isDigit_of_mem_toDigits (by decide) (by decide) hc
  have hspells := Token.Spells.number Nat.toDigits_ne_nil hdigits
  rw [Nat.ofDigitChars_ten_toDigits] at hspells
  rw [Nat.toList_repr]
  exact .token hspells (hc _) h

end Laid

/-! ### What is printed is a layout -/

/-- The text of an expression lays out its tokens, in front of what closes it. -/
theorem Expr.laid_render {e : Expr} (he : e.wellFormed = true) {ts : List Token}
    {rest : List Char} (hc : Closes rest) (h : Laid ts rest) :
    Laid (e.tokens ++ ts) (e.render.toList ++ rest) := by
  induction e generalizing ts rest with
  | var name => exact .var he hc h
  | lit value =>
    cases value with
    | int n =>
      obtain ⟨m, rfl⟩ := Int.eq_ofNat_of_zero_le (of_decide_eq_true he)
      exact .number m hc h
    | bool b =>
      cases b with
      | true => exact .keyword .trueWord hc h
      | false => exact .keyword .falseWord hc h
  | bin op left right ihl ihr =>
    obtain ⟨hl, hr⟩ := Bool.and_eq_true_iff.mp he
    have hright : Laid (.op op :: (right.tokens ++ ts))
        (op.symbol.toList ++ ' ' :: (right.render.toList ++ rest)) :=
      .token (.op op) (closes_space _ _) (ihr hr hc h).space
    rw [Expr.tokens, Expr.render]
    by_cases hb : left.isBin = true
    · have hclose : Laid (.rparen :: .op op :: (right.tokens ++ ts)) (')' :: ' ' ::
          (op.symbol.toList ++ ' ' :: (right.render.toList ++ rest))) :=
        .token .rparen (fun _ _ => rfl) hright.space
      have hleft := Laid.token .lparen (fun _ _ => rfl) (ihl hl (closes_rparen _) hclose)
      rw [if_pos hb, if_pos hb]
      simpa using hleft
    · have hleft := ihl hl (closes_space _) hright.space
      rw [if_neg hb, if_neg hb]
      simpa using hleft

theorem Stmt.laid_render {s : Stmt} (hs : s.wellFormed = true) {ts : List Token}
    {rest : List Char} (hc : Closes rest) (h : Laid ts rest) :
    Laid (s.tokens ++ ts) (s.render.toList ++ rest) := by
  induction s generalizing ts rest with
  | skip => exact .keyword .skipWord hc h
  | assign name expr =>
    obtain ⟨hn, he⟩ := Bool.and_eq_true_iff.mp hs
    have hassign := Laid.token .assign (fun _ _ => rfl) (Expr.laid_render he hc h).space
    have hlaid := Laid.var hn (closes_space _) hassign.space
    simpa [Stmt.tokens, Stmt.render] using hlaid
  | branch cond yes no ihy ihn =>
    obtain ⟨hcy, hn⟩ := Bool.and_eq_true_iff.mp hs
    obtain ⟨hcond, hy⟩ := Bool.and_eq_true_iff.mp hcy
    have hendif := Laid.keyword .endifWord hc h
    have hno := Laid.keyword .elseWord (closes_space _) (ihn hn (closes_space _) hendif.space).space
    have hyes := Laid.keyword .thenWord (closes_space _) (ihy hy (closes_space _) hno.space).space
    have hlaid := Laid.keyword .ifWord (closes_space _)
      (Expr.laid_render hcond (closes_space _) hyes.space).space
    simpa [Stmt.tokens, Stmt.render, Keyword.word] using hlaid
  | loop cond body ih =>
    obtain ⟨hcond, hb⟩ := Bool.and_eq_true_iff.mp hs
    have hend := Laid.keyword .endwhileWord hc h
    have hbody := Laid.keyword .doWord (closes_space _) (ih hb (closes_space _) hend.space).space
    have hlaid := Laid.keyword .whileWord (closes_space _)
      (Expr.laid_render hcond (closes_space _) hbody.space).space
    simpa [Stmt.tokens, Stmt.render, Keyword.word] using hlaid
  | seq first second ih1 ih2 =>
    obtain ⟨h1, h2⟩ := Bool.and_eq_true_iff.mp hs
    have hsecond := Laid.token .semi (fun _ _ => rfl) (ih2 h2 hc h).space
    have hlaid := ih1 h1 (closes_semi _) hsecond
    simpa [Stmt.tokens, Stmt.render] using hlaid

/-! ### What is read is well-formed -/

theorem Laid.isWritable {ts : List Token} {cs : List Char} (h : Laid ts cs) :
    ∀ t ∈ ts, t.isWritable = true := by
  induction h with
  | done => exact fun t ht => by cases ht
  | blank _ _ ih => exact ih
  | token ht _ _ ih =>
    refine List.forall_mem_cons.mpr ⟨?_, ih⟩
    cases ht with
    | @var cs hne hu =>
      refine Bool.and_eq_true_iff.mpr ⟨?_, ?_⟩
      · simpa using hne
      · rw [String.toList_ofList]
        exact List.all_eq_true.mpr hu
    | _ => rfl

namespace Stmt

theorem wellFormed_of_parse {text : String} {s : Stmt} (h : parse text = .ok s) :
    s.wellFormed = true := by
  obtain ⟨ts, hl, hs⟩ := parse_eq_ok_iff_laid.mp h
  exact hs.wellFormed hl.isWritable

theorem rightNest_of_parse {text : String} {s : Stmt} (h : parse text = .ok s) :
    s.rightNest = s := by
  obtain ⟨ts, -, hs⟩ := parse_eq_ok_iff_laid.mp h
  exact hs.rightNest_eq

/-- What is printed of a well-formed tree is read again, nested to the right. -/
theorem parse_render {s : Stmt} (h : s.wellFormed = true) :
    parse s.render = .ok s.rightNest := by
  have hlaid := laid_render h closes_nil Laid.done
  rw [List.append_nil, List.append_nil] at hlaid
  exact parse_eq_ok_iff_laid.mpr ⟨s.tokens, hlaid, statement_tokens h⟩

theorem parse_render_of_parse {text : String} {s : Stmt} (h : parse text = .ok s) :
    parse s.render = .ok s := by
  rw [parse_render (wellFormed_of_parse h), rightNest_of_parse h]

/-- **Printing and reading are inverse up to the nesting of chains.**  The text of a statement
reads as the statement nested to the right if and only if the statement is well-formed.  A
program that has been read is well-formed and nested to the right; so its text reads as the
program itself, is printed again as the same text, and belongs to no other program that can
be read. -/
theorem parse_render_exact :
    (∀ s : Stmt, parse s.render = .ok s.rightNest ↔ s.wellFormed = true) ∧
    (∀ text p, parse text = .ok p → p.wellFormed = true ∧ p.rightNest = p ∧
      parse p.render = .ok p ∧ ∀ q, parse p.render = .ok q → q.render = p.render) ∧
    (∀ text text' p q, parse text = .ok p → parse text' = .ok q → p.render = q.render →
      p = q) := by
  refine ⟨fun s => ⟨fun h => ?_, parse_render⟩, fun text p h => ?_,
    fun text text' p q h h' he => ?_⟩
  · rw [← wellFormed_rightNest]
    exact wellFormed_of_parse h
  · have hp := parse_render_of_parse h
    refine ⟨wellFormed_of_parse h, rightNest_of_parse h, hp, fun q hq => ?_⟩
    rw [hp] at hq
    cases hq
    rfl
  · have hp := parse_render_of_parse h
    rw [he, parse_render_of_parse h'] at hp
    cases hp
    rfl

end Stmt

theorem parse_difference : Stmt.parse "X := (1 - 2) - 3; skip" = .ok difference := by
  refine Stmt.parse_eq_ok_iff.mpr ⟨⟨1, ?_⟩, statement_difference⟩
  rw [ofString_difference]
  rfl

theorem parse_difference_tight : Stmt.parse "X:=(1-2)-003;\n\tskip" = .ok difference := by
  have hstream : TokenStream.ofString "X:=(1-2)-003;\n\tskip" =
      .token (.var "X") 0 1 (.token .assign 1 1 (.token .lparen 3 1 (.token (.number 1) 4 1
        (.token (.op .minus) 5 1 (.token (.number 2) 6 1 (.token .rparen 7 1
          (.token (.op .minus) 8 1 (.token (.number 3) 9 1 (.token .semi 12 1
            (.token (.keyword .skipWord) 15 2 (.finish 19 2))))))))))) := by decide +kernel
  rw [Stmt.parse, hstream]
  rfl

/-- The program `difference` in front of `skip`, nested to the left. -/
def differenceThenSkip : Stmt := .seq difference .skip

/-- A chain that is nested to the left reads back nested to the right.  `difference` reads back
as it is, and a text of it with other blanks and zeros has the same tree. -/
theorem parse_render_exact_difference :
    (Stmt.parse differenceThenSkip.render = .ok differenceThenSkip.rightNest ∧
      differenceThenSkip.rightNest ≠ differenceThenSkip) ∧
    (difference.wellFormed = true ∧ difference.rightNest = difference ∧
      Stmt.parse difference.render = .ok difference ∧
      ∀ q, Stmt.parse difference.render = .ok q → q.render = difference.render) ∧
    difference = .seq (.assign "X" (.bin .minus (.bin .minus (.lit (.int 1)) (.lit (.int 2)))
      (.lit (.int 3)))) .skip := by
  obtain ⟨hround, hread, hinj⟩ := Stmt.parse_render_exact
  exact ⟨⟨(hround differenceThenSkip).mpr (by decide), by decide⟩,
    hread _ difference parse_difference, hinj _ _ _ _ parse_difference parse_difference_tight rfl⟩

end WhileLang
