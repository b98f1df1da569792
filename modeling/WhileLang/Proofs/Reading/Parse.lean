import WhileLang.Proofs.Reading.Completeness
import WhileLang.Stmt.Parser

/-!
# Reading a text

A text is a program when all of it is tokens and the tokens are a statement of the grammar.
The reader follows the token stream and the unfinished program side by side, so
`Unfinished.read_eq_ok_iff` splits what it does into these two parts, and
`statement_iff_steps` turns the second one into the grammar.

Every token takes at least one character of the text (`TokenStream.length_tokens_le`), and
the reader takes one step for each token.
-/

namespace WhileLang

namespace Unfinished

theorem read_eq_ok_iff {u : Unfinished} {stream : TokenStream} {s : Stmt} :
    u.read stream = .ok s ↔
      (∃ line, stream.ending = .ok line) ∧
        ∃ u', u.steps stream.tokens = some u' ∧ u'.finish? = some s := by
  induction stream generalizing u with
  | finish offset line =>
    rw [read, TokenStream.ending, TokenStream.tokens, steps]
    cases hf : u.finish? with
    | some p =>
      constructor
      · intro h
        cases h
        exact ⟨⟨line, rfl⟩, u, rfl, hf⟩
      · rintro ⟨_, u', hu, hs⟩
        cases hu
        rw [hf] at hs
        cases hs
        rfl
    | none =>
      constructor
      · intro h
        cases h
      · rintro ⟨_, u', hu, hs⟩
        cases hu
        rw [hf] at hs
        cases hs
  | fault cause offset =>
    rw [read, TokenStream.ending]
    constructor
    · intro h
      cases h
    · rintro ⟨⟨line, hl⟩, _⟩
      cases hl
  | token t offset line rest ih =>
    rw [read, TokenStream.ending, TokenStream.tokens]
    cases ht : u.step t with
    | some v =>
      rw [steps_cons ht]
      exact ih
    | none =>
      rw [steps_cons_of_none ht]
      constructor
      · intro h
        cases h
      · rintro ⟨_, u', hu, _⟩
        cases hu

end Unfinished

namespace TokenStream

theorem length_tokens_le (offset line : Nat) (cs : List Char) :
    (ofChars offset line cs).tokens.length ≤ cs.length := by
  fun_induction ofChars offset line cs with
  | case1 => exact Nat.le_refl _
  | case2 offset line c cs _ ih => exact Nat.le_succ_of_le ih
  | case3 offset line c cs t more _ ih =>
    rw [List.length_drop] at ih
    rw [tokens, List.length_cons, List.length_cons]
    omega
  | case4 => exact Nat.zero_le _

end TokenStream

namespace Stmt

/-- The outcome of reading a text is that of reading its tokens. -/
theorem parse_eq_ok_iff_read {text : String} {s : Stmt} :
    parse text = .ok s ↔ Unfinished.start.read (TokenStream.ofString text) = .ok s := by
  rw [parse]
  cases Unfinished.start.read (TokenStream.ofString text) with
  | ok p =>
    constructor
    · intro h
      cases h
      rfl
    · intro h
      cases h
      rfl
  | error e =>
    constructor
    · intro h
      cases h
    · intro h
      cases h

theorem parse_eq_error {text : String} {e : ParseError} (h : parse text = .error e) :
    Unfinished.start.read (TokenStream.ofString text) = .error (e.fault, e.offset) ∧
      e.position = Position.ofOffset text.toList e.offset := by
  rw [parse] at h
  cases hr : Unfinished.start.read (TokenStream.ofString text) with
  | ok s =>
    rw [hr] at h
    cases h
  | error cause =>
    rw [hr] at h
    cases h
    exact ⟨rfl, rfl⟩

theorem parse_eq_ok_iff {text : String} {s : Stmt} :
    parse text = .ok s ↔
      (∃ line, (TokenStream.ofString text).ending = .ok line) ∧
        Grammar.Statement (TokenStream.ofString text).tokens s := by
  rw [parse_eq_ok_iff_read, Unfinished.read_eq_ok_iff, statement_iff_steps]

/-- **The reader accepts exactly the grammar, with one tree.**  A text reads as a program if
and only if all of it is tokens and the grammar derives the program from them; no tokens have
two trees; in every other case reading gives an error, after at most as many tokens as the
text has characters. -/
theorem parse_exact (text : String) :
    (∀ s, parse text = .ok s ↔
      (∃ line, (TokenStream.ofString text).ending = .ok line) ∧
        Grammar.Statement (TokenStream.ofString text).tokens s) ∧
    (∀ ts s s', Grammar.Statement ts s → Grammar.Statement ts s' → s = s') ∧
    ((¬∃ s, (∃ line, (TokenStream.ofString text).ending = .ok line) ∧
      Grammar.Statement (TokenStream.ofString text).tokens s) → ∃ e, parse text = .error e) ∧
    (TokenStream.ofString text).tokens.length ≤ text.toList.length := by
  refine ⟨fun s => parse_eq_ok_iff, fun ts s s' h h' => h.unique_tree h', fun hnone => ?_,
    TokenStream.length_tokens_le 0 1 text.toList⟩
  cases hp : parse text with
  | error e => exact ⟨e, rfl⟩
  | ok s => exact absurd ⟨s, parse_eq_ok_iff.mp hp⟩ hnone

end Stmt

open Grammar

/-- The program `X := (1 - 2) - 3; skip`. -/
def difference : Stmt :=
  .seq (.assign "X" (.bin .minus (.bin .minus (.lit (.int 1)) (.lit (.int 2))) (.lit (.int 3))))
    .skip

theorem ofString_difference : TokenStream.ofString "X := (1 - 2) - 3; skip" =
    .token (.var "X") 0 1 (.token .assign 2 1 (.token .lparen 5 1 (.token (.number 1) 6 1
      (.token (.op .minus) 8 1 (.token (.number 2) 10 1 (.token .rparen 11 1
        (.token (.op .minus) 13 1 (.token (.number 3) 15 1 (.token .semi 16 1
          (.token (.keyword .skipWord) 18 1 (.finish 22 1))))))))))) := by
  decide +kernel

theorem statement_difference :
    Statement (TokenStream.ofString "X := (1 - 2) - 3; skip").tokens difference := by
  rw [ofString_difference]
  have hinner : Expression [.number 1, .op .minus, .number 2]
      (.bin .minus (.lit (.int 1)) (.lit (.int 2))) :=
    .bin .minus (.number 1) (.operand (.number 2))
  exact .seq (.assign "X" (.bin .minus (.paren hinner) (.operand (.number 3)))) (.simple .skip)

theorem parse_exact_difference :
    Stmt.parse "X := (1 - 2) - 3; skip" = .ok difference ∧
      (∀ s, Statement (TokenStream.ofString "X := (1 - 2) - 3; skip").tokens s → s = difference) ∧
      ∃ e, Stmt.parse "X := 1 skip" = .error e := by
  obtain ⟨haccepts, hunique, -, -⟩ := Stmt.parse_exact "X := (1 - 2) - 3; skip"
  obtain ⟨hsound, -, hrejects, -⟩ := Stmt.parse_exact "X := 1 skip"
  refine ⟨(haccepts difference).mpr ⟨⟨1, ?_⟩, statement_difference⟩,
    fun s h => hunique _ s difference h statement_difference, hrejects ?_⟩
  · rw [ofString_difference]
    rfl
  · rintro ⟨s, hs⟩
    have hstream : TokenStream.ofString "X := 1 skip" =
        .token (.var "X") 0 1 (.token .assign 2 1 (.token (.number 1) 5 1
          (.token (.keyword .skipWord) 7 1 (.finish 11 1)))) := by decide +kernel
    have hread := Stmt.parse_eq_ok_iff_read.mp ((hsound s).mpr hs)
    rw [hstream] at hread
    cases hread

end WhileLang
