import WhileLang.Proofs.Reading.Layout
import WhileLang.Proofs.Reading.Parse
import WhileLang.Proofs.Reading.Stream
import WhileLang.Proofs.Reading.Viable
import WhileLang.Proofs.Text.Line

/-!
# The first fault of a text

An error names the first place at which a text stops being the beginning of a program.
`StopsAt` says what is wrong at a place, without the reader: the text ends there and is not a
program yet, or no token starts there, or a token starts there that no program has behind the
tokens before it.  It gives the message too, in the characters that stand there; only a number is
shown without zeros in front (`Token.Spells.toList_text`).

What the reader has taken is viable (`viable_iff_steps`), and it stops where the next token
makes it so no longer.  So the tokens in front of the place are the beginning of a program,
and at most one place has such tokens in front of it and `StopsAt` (`StopsAt.unique`): the
tokens in front of a later place contain the token that did not fit.
-/

namespace WhileLang

open Grammar TokenStream

/-! ### What a message shows -/

/-- The characters without zeros in front of another one. -/
def withoutZeros : List Char → List Char
  | '0' :: c :: cs => withoutZeros (c :: cs)
  | cs => cs

theorem withoutZeros_of_head {cs : List Char} (h : cs.head? ≠ some '0') : withoutZeros cs = cs := by
  rw [withoutZeros]
  rintro c cs rfl
  exact h rfl

theorem toDigits_of_isDigit {c : Char} (h : c.isDigit = true) :
    Nat.toDigits 10 (c.toNat - 48) = [c] := by
  have hrange := toNat_of_isDigit h
  have hchar : Nat.digitChar (c.toNat - 48) = c := by
    apply Char.toNat_inj.mp
    rw [Nat.toNat_digitChar_of_lt_ten (by omega)]
    show 48 + _ = _
    omega
  rw [Nat.toDigits_of_lt_base (by omega), hchar]

/-- Behind a number that is not zero, digits are written as they are. -/
theorem toDigits_ofDigitChars_of_pos {cs : List Char} (hd : ∀ c ∈ cs, c.isDigit = true) {n : Nat}
    (hn : 0 < n) : Nat.toDigits 10 (Nat.ofDigitChars 10 cs n) = Nat.toDigits 10 n ++ cs := by
  induction cs generalizing n with
  | nil => rw [Nat.ofDigitChars_nil, List.append_nil]
  | cons c cs ih =>
    obtain ⟨hc, hcs⟩ := List.forall_mem_cons.mp hd
    have hrange := toNat_of_isDigit hc
    rw [Nat.ofDigitChars_cons, ih hcs (by omega)]
    show Nat.toDigits 10 (10 * n + (c.toNat - 48)) ++ cs = _
    rw [← Nat.toDigits_append_toDigits (by decide) hn (by omega), toDigits_of_isDigit hc,
      List.append_assoc, List.singleton_append]

theorem toDigits_ofDigitChars {cs : List Char} (hne : cs ≠ [])
    (hd : ∀ c ∈ cs, c.isDigit = true) :
    Nat.toDigits 10 (Nat.ofDigitChars 10 cs 0) = withoutZeros cs := by
  fun_induction withoutZeros cs with
  | case1 c cs ih => exact ih (List.cons_ne_nil c cs) (List.forall_mem_cons.mp hd).2
  | case2 cs hzero =>
    obtain ⟨c, rest, rfl⟩ := List.exists_cons_of_ne_nil hne
    obtain ⟨hc, hrest⟩ := List.forall_mem_cons.mp hd
    have hrange := toNat_of_isDigit hc
    show Nat.toDigits 10 (Nat.ofDigitChars 10 rest (10 * 0 + (c.toNat - 48))) = _
    rw [Nat.zero_add]
    cases rest with
    | nil => exact toDigits_of_isDigit hc
    | cons d rest =>
      have hpos : 0 < c.toNat - 48 := by
        rw [Nat.pos_iff_ne_zero]
        intro he
        refine hzero d rest ?_
        have h48 : c.toNat = '0'.toNat := by
          show _ = 48
          omega
        rw [Char.toNat_inj.mp h48]
      rw [toDigits_ofDigitChars_of_pos hrest hpos, toDigits_of_isDigit hc, List.singleton_append]

/-- What a token is shown as are the characters that spell it. -/
theorem Token.Spells.toList_text {t : Token} {cs : List Char} (h : t.Spells cs) :
    t.text.toList = withoutZeros cs := by
  cases h with
  | @var cs hne hu =>
    have hhead : cs.head? ≠ some '0' := fun h0 =>
      absurd (hu '0' (List.mem_of_mem_head? h0)) (by decide)
    rw [withoutZeros_of_head hhead, text, String.toList_ofList]
  | number hne hd => rw [text, Nat.toList_repr, toDigits_ofDigitChars hne hd]
  | op op => cases op <;> decide
  | keyword k => cases k <;> decide
  | assign => decide
  | lparen => decide
  | rparen => decide
  | semi => decide

/-- What is wrong with a text at an offset, and the message. -/
inductive StopsAt (text : String) (offset : Nat) : ParseFault → String → Prop
  /-- All of the text is tokens, and they are not a whole program. -/
  | unexpectedEnd (ho : offset = text.toList.length)
      (hall : ∃ line, (ofString text).ending = .ok line)
      (hno : ∀ s, ¬Statement (ofString text).tokens s) :
      StopsAt text offset .unexpectedEnd "unexpected end of input"
  /-- The tokens end here, at a character that starts none. -/
  | illegal {c : Char} (hend : (ofString text).ending = .error (.illegal c, offset))
      (hbegins : (LexicalFault.illegal c).Begins (text.toList.drop offset)) :
      StopsAt text offset (.lexical (.illegal c))
        ("illegal character '" ++ String.singleton c ++ "'")
  /-- The tokens end here, at a word that is neither a keyword nor in capitals. -/
  | badWord {word : String} (hend : (ofString text).ending = .error (.badWord word, offset))
      (hbegins : (LexicalFault.badWord word).Begins (text.toList.drop offset)) :
      StopsAt text offset (.lexical (.badWord word))
        ("unexpected word '" ++ word ++ "' (variables are upper-case)")
  /-- With the token that starts here, the tokens begin no program.  The message shows the
  characters of the token, and for a number those of its value. -/
  | unexpected {t : Token} {line : Nat} {lexeme rest : List Char}
      (ht : (t, offset, line) ∈ (ofString text).entries)
      (hno : ¬Viable ((ofString text).before offset ++ [t]))
      (htext : text.toList.drop offset = lexeme ++ rest) (hspells : t.Spells lexeme)
      (hends : t.EndsBefore rest) :
      StopsAt text offset (.unexpected t)
        ("unexpected token '" ++ String.ofList (withoutZeros lexeme) ++ "'")

/-! ### Where the reader stops -/

/-- A reading that fails has come to the end of its stream too early, has met the fault of the
stream, or a token that does not fit. -/
theorem Unfinished.read_eq_error {u : Unfinished} {stream : TokenStream} {fault : ParseFault}
    {o : Nat} (h : u.read stream = .error (fault, o)) :
    (∃ v, u.steps stream.tokens = some v ∧ v.finish? = none ∧
      (∃ line, stream.ending = .ok line) ∧ fault = .unexpectedEnd ∧ o = stream.endOffset) ∨
    (∃ v cause, u.steps stream.tokens = some v ∧ stream.ending = .error (cause, o) ∧
      fault = .lexical cause) ∨
    ∃ v first t line rest, stream.entries = first ++ (t, o, line) :: rest ∧
      u.steps (first.map Prod.fst) = some v ∧ v.step t = none ∧ fault = .unexpected t := by
  induction stream generalizing u with
  | finish offset line =>
    rw [read] at h
    cases hf : u.finish? with
    | some p => rw [hf] at h; cases h
    | none =>
      rw [hf] at h
      cases h
      exact Or.inl ⟨u, rfl, hf, ⟨line, rfl⟩, rfl, rfl⟩
  | fault cause offset =>
    cases h
    exact Or.inr (Or.inl ⟨u, cause, rfl, rfl, rfl⟩)
  | token t offset line stream ih =>
    rw [read] at h
    cases hs : u.step t with
    | none =>
      rw [hs] at h
      cases h
      exact Or.inr (Or.inr ⟨u, [], t, line, stream.entries, rfl, rfl, hs, rfl⟩)
    | some u' =>
      rw [hs] at h
      rw [TokenStream.tokens, steps_cons hs]
      rcases ih h with hend | hlex | ⟨v, first, t', line', rest, he, hv, hstep, hfault⟩
      · exact Or.inl hend
      · exact Or.inr (Or.inl hlex)
      · refine Or.inr (Or.inr ⟨v, (t, offset, line) :: first, t', line', rest, ?_, ?_, hstep,
          hfault⟩)
        · rw [TokenStream.entries, he, List.cons_append]
        · rw [List.map_cons, steps_cons hs, hv]

theorem exists_lexeme_of_mem_entries {text : String} {t : Token} {o line : Nat}
    (h : (t, o, line) ∈ (ofString text).entries) :
    ∃ lexeme rest, text.toList.drop o = lexeme ++ rest ∧ t.Spells lexeme ∧ t.EndsBefore rest := by
  obtain ⟨-, c, rest, more, hdrop, ht⟩ := lexeme_of_mem_entries h
  obtain ⟨hspells, hends⟩ := Lexeme.spells_of_ofChars ht
  refine ⟨c :: rest.take more, rest.drop more, ?_, hspells, hends⟩
  rw [Nat.sub_zero] at hdrop
  rw [hdrop, List.cons_append, List.take_append_drop]

/-- Where a reading from the beginning fails, the text stops being the beginning of a program. -/
theorem stopsAt_of_read {text : String} {fault : ParseFault} {o : Nat}
    (h : Unfinished.start.read (ofString text) = .error (fault, o)) :
    Viable ((ofString text).before o) ∧ StopsAt text o fault fault.text := by
  rcases Unfinished.read_eq_error h with ⟨v, hv, hfin, ⟨line, hend⟩, rfl, rfl⟩ |
    ⟨v, cause, hv, hend, rfl⟩ | ⟨v, first, t, line, rest, he, hv, hstep, rfl⟩
  · have ho : (ofString text).endOffset = text.toList.length := by
      have hlen := endOffset_of_ending hend
      rwa [Nat.zero_add] at hlen
    have hbefore : (ofString text).before (ofString text).endOffset = (ofString text).tokens := by
      refine before_eq_tokens fun ⟨t, o, l⟩ ht => ?_
      rw [ho]
      exact lt_length_of_mem_entries ht
    rw [hbefore]
    refine ⟨viable_iff_steps.mpr ⟨v, hv⟩, .unexpectedEnd ho ⟨line, hend⟩ fun s hs => ?_⟩
    obtain ⟨u, hu, hf⟩ := statement_iff_steps.mp hs
    rw [hv] at hu
    cases hu
    rw [hfin] at hf
    cases hf
  · have hbefore : (ofString text).before o = (ofString text).tokens :=
      before_eq_tokens fun ⟨t, o', l⟩ ht => lt_of_ending hend ht
    have hbegins := (begins_of_ending hend).2
    rw [hbefore]
    refine ⟨viable_iff_steps.mpr ⟨v, hv⟩, ?_⟩
    cases cause with
    | illegal c => exact .illegal hend hbegins
    | badWord word => exact .badWord hend hbegins
  · have hbefore : (ofString text).before o = first.map Prod.fst := before_eq he
    have hmem : (t, o, line) ∈ (ofString text).entries := by rw [he]; simp
    obtain ⟨lexeme, after, htext, hspells, hends⟩ := exists_lexeme_of_mem_entries hmem
    have hno : ¬Viable ((ofString text).before o ++ [t]) := by
      rw [hbefore]
      exact not_viable_of_step_eq_none hv hstep
    have htoken : t.text = String.ofList (withoutZeros lexeme) := by
      rw [← hspells.toList_text, String.ofList_toList]
    refine ⟨?_, ?_⟩
    · rw [hbefore]
      exact viable_iff_steps.mpr ⟨v, hv⟩
    · show StopsAt text o _ ("unexpected token '" ++ t.text ++ "'")
      rw [htoken]
      exact .unexpected hmem hno htext hspells hends

/-! ### There is one such place -/

namespace StopsAt

variable {text : String} {o o' : Nat} {fault fault' : ParseFault} {m m' : String}

theorem message_eq (h : StopsAt text o fault m) : m = fault.text := by
  cases h with
  | unexpectedEnd => rfl
  | illegal => rfl
  | badWord => rfl
  | @unexpected t line lexeme rest _ _ _ hspells =>
    have htoken : String.ofList (withoutZeros lexeme) = t.text := by
      rw [← hspells.toList_text, String.ofList_toList]
    rw [htoken]
    rfl

theorem place (h : StopsAt text o fault m) :
    (∃ cause, fault = .lexical cause ∧ (ofString text).ending = .error (cause, o) ∧
      cause.Begins (text.toList.drop o)) ∨
    (fault = .unexpectedEnd ∧ o = text.toList.length ∧
      (∃ line, (ofString text).ending = .ok line) ∧ ∀ s, ¬Statement (ofString text).tokens s) ∨
    ∃ t line, fault = .unexpected t ∧ (t, o, line) ∈ (ofString text).entries ∧
      ¬Viable ((ofString text).before o ++ [t]) := by
  cases h with
  | unexpectedEnd ho hall hno => exact Or.inr (Or.inl ⟨rfl, ho, hall, hno⟩)
  | illegal hend hbegins => exact Or.inl ⟨_, rfl, hend, hbegins⟩
  | badWord hend hbegins => exact Or.inl ⟨_, rfl, hend, hbegins⟩
  | unexpected ht hno => exact Or.inr (Or.inr ⟨_, _, rfl, ht, hno⟩)

theorem le_length (h : StopsAt text o fault m) : o ≤ text.toList.length := by
  rcases h.place with ⟨cause, -, -, hbegins⟩ | ⟨-, ho, -⟩ | ⟨t, line, -, ht, -⟩
  · rw [← Nat.not_lt]
    intro hlt
    rw [List.drop_eq_nil_of_le (Nat.le_of_lt hlt)] at hbegins
    cases hbegins with
    | badWord hne => exact hne rfl
  · exact Nat.le_of_eq ho
  · exact Nat.le_of_lt (lt_length_of_mem_entries ht)

/-- Behind a place that stops the text there is no other one with viable tokens in front. -/
theorem not_lt (h : StopsAt text o fault m) (h' : StopsAt text o' fault' m')
    (hv : Viable ((ofString text).before o')) : ¬o < o' := by
  intro hlt
  rcases h.place with ⟨cause, -, hend, -⟩ | ⟨-, ho, -⟩ | ⟨t, line, -, ht, hno⟩
  · rcases h'.place with ⟨cause', -, hend', -⟩ | ⟨-, -, ⟨line, hall⟩, -⟩ | ⟨t, line, -, ht, -⟩
    · rw [hend] at hend'
      cases hend'
      exact Nat.lt_irrefl o hlt
    · rw [hend] at hall
      cases hall
    · exact Nat.lt_asymm hlt (lt_of_ending hend ht)
  · have hle := h'.le_length
    omega
  · obtain ⟨rest, hrest⟩ := exists_before_eq_of_lt ht hlt
    rw [ofString, hrest] at hv
    exact hno hv.of_append

theorem fault_unique (h : StopsAt text o fault m) (h' : StopsAt text o fault' m') :
    fault = fault' := by
  rcases h.place with ⟨cause, rfl, hend, -⟩ | ⟨rfl, ho, ⟨line, hall⟩, -⟩ | ⟨t, line, rfl, ht, -⟩ <;>
    rcases h'.place with
      ⟨cause', rfl, hend', -⟩ | ⟨rfl, ho', ⟨line', hall'⟩, -⟩ | ⟨t', line', rfl, ht', -⟩
  · rw [hend] at hend'
    cases hend'
    rfl
  · rw [hend] at hall'
    cases hall'
  · exact absurd (lt_of_ending hend ht') (Nat.lt_irrefl o)
  · rw [hall] at hend'
    cases hend'
  · rfl
  · exact absurd (lt_length_of_mem_entries ht') (by omega)
  · exact absurd (lt_of_ending hend' ht) (Nat.lt_irrefl o)
  · exact absurd (lt_length_of_mem_entries ht) (by omega)
  · rw [token_unique ht ht']

theorem unique (h : StopsAt text o fault m) (h' : StopsAt text o fault' m') :
    fault = fault' ∧ m = m' := by
  have hfault := h.fault_unique h'
  exact ⟨hfault, by rw [h.message_eq, h'.message_eq, hfault]⟩

theorem parse_ne_ok (h : StopsAt text o fault m) (s : Stmt) : Stmt.parse text ≠ .ok s := by
  intro hp
  obtain ⟨⟨line, hend⟩, hs⟩ := Stmt.parse_eq_ok_iff.mp hp
  rcases h.place with ⟨cause, -, hend', -⟩ | ⟨-, -, -, hno⟩ | ⟨t, line', -, ht, hno⟩
  · rw [hend] at hend'
    cases hend'
  · exact hno s hs
  · -- all tokens are in front of the end of the text, and all of them are viable
    have hall : (ofString text).before text.toList.length = (ofString text).tokens :=
      before_eq_tokens fun ⟨t, o, l⟩ ht => lt_length_of_mem_entries ht
    obtain ⟨rest, hrest⟩ := exists_before_eq_of_lt ht (lt_length_of_mem_entries ht)
    rw [← hall, ofString, hrest] at hs
    exact hno ⟨rest, s, hs⟩

end StopsAt

namespace Stmt

/-- **An error is reported at the first possible place.**  Reading fails with an error if and
only if the tokens in front of its offset are the beginning of a program, the text stops there
for the reason and with the wording that the error gives, and the position of the error is
the line and the column of the offset.  At a place a text stops for one reason only; and no
token that does not fit stands in front of the error, whatever is wrong behind it. -/
theorem parse_first_fault (text : String) :
    (∀ e, parse text = .error e ↔
      Viable ((ofString text).before e.offset) ∧ StopsAt text e.offset e.fault e.text ∧
        e.position = ⟨(text.toList.take e.offset).count '\n' + 1,
          ((text.toList.take e.offset).reverse.takeWhile (· != '\n')).length + 1⟩) ∧
    (∀ o fault fault' m m', StopsAt text o fault m → StopsAt text o fault' m' →
      fault = fault' ∧ m = m') ∧
    (∀ e, parse text = .error e → ∀ t o line, (t, o, line) ∈ (ofString text).entries →
      ¬Viable ((ofString text).before o ++ [t]) → e.offset ≤ o) := by
  have hstops : ∀ e, parse text = .error e →
      Viable ((ofString text).before e.offset) ∧ StopsAt text e.offset e.fault e.text :=
    fun e h => stopsAt_of_read (parse_eq_error h).1
  refine ⟨fun e => ⟨fun h => ?_, ?_⟩, fun o fault fault' m m' h h' => h.unique h', ?_⟩
  · obtain ⟨hv, hs⟩ := hstops e h
    refine ⟨hv, hs, ?_⟩
    rw [(parse_eq_error h).2, Position.ofOffset_eq]
  · rintro ⟨hv, hs, hpos⟩
    cases hp : parse text with
    | ok s => exact absurd hp (hs.parse_ne_ok s)
    | error e' =>
      obtain ⟨hv', hs'⟩ := hstops e' hp
      obtain ⟨fault, o, position⟩ := e
      obtain ⟨fault', o', position'⟩ := e'
      have ho : o' = o := Nat.le_antisymm (Nat.not_lt.mp (hs.not_lt hs' hv'))
        (Nat.not_lt.mp (hs'.not_lt hs hv))
      subst ho
      have hpos' : position' = _ := (parse_eq_error hp).2.trans (Position.ofOffset_eq _ _)
      have hfault : fault = fault' := (hs.unique hs').1
      have hposition : position = position' := hpos.trans hpos'.symm
      rw [hfault, hposition]
  · intro e h t o line ht hno
    obtain ⟨hv, -⟩ := hstops e h
    rw [← Nat.not_lt]
    intro hlt
    obtain ⟨rest, hrest⟩ := exists_before_eq_of_lt ht hlt
    rw [ofString, hrest] at hv
    exact hno hv.of_append

end Stmt

theorem ofString_misplaced : ofString "X :=\n:= ; #" =
    .token (.var "X") 0 1 (.token .assign 2 1 (.token .assign 5 2 (.token .semi 8 2
      (.fault (.illegal '#') 10)))) := by
  decide +kernel

theorem parse_misplaced : Stmt.parse "X :=\n:= ; #" = .error ⟨.unexpected .assign, 5, ⟨2, 1⟩⟩ := by
  rw [Stmt.parse, ofString_misplaced]
  rfl

theorem parse_leadingZeros : Stmt.parse "X 007" = .error ⟨.unexpected (.number 7), 2, ⟨1, 3⟩⟩ := by
  have hstream : ofString "X 007" =
      .token (.var "X") 0 1 (.token (.number 7) 2 1 (.finish 5 1)) := by
    decide +kernel
  rw [Stmt.parse, hstream]
  rfl

theorem parse_secondName : Stmt.parse "X := A B" = .error ⟨.unexpected (.var "B"), 7, ⟨1, 8⟩⟩ := by
  have hstream : ofString "X := A B" =
      .token (.var "X") 0 1 (.token .assign 2 1 (.token (.var "A") 5 1
        (.token (.var "B") 7 1 (.finish 8 1)))) := by
    decide +kernel
  rw [Stmt.parse, hstream]
  rfl

theorem parse_noMark : Stmt.parse "skip; $" = .error ⟨.lexical (.illegal '$'), 6, ⟨1, 7⟩⟩ := by
  have hstream : ofString "skip; $" =
      .token (.keyword .skipWord) 0 1 (.token .semi 4 1 (.fault (.illegal '$') 6)) := by
    decide +kernel
  rw [Stmt.parse, hstream]
  rfl

theorem parse_smallLetters :
    Stmt.parse "X := Yes" = .error ⟨.lexical (.badWord "Yes"), 5, ⟨1, 6⟩⟩ := by
  have hstream : ofString "X := Yes" =
      .token (.var "X") 0 1 (.token .assign 2 1 (.fault (.badWord "Yes") 5)) := by
    decide +kernel
  rw [Stmt.parse, hstream]
  rfl

/-- The second `:=` is reported, on the second line; neither the semicolon behind it, which
does not fit either, nor the character that is no token hides it.  A number is reported by its
value, a name by its letters, and where no token starts it is the character or the word. -/
theorem parse_first_fault_misplaced :
    (Viable ((ofString "X :=\n:= ; #").before 5) ∧
      StopsAt "X :=\n:= ; #" 5 (.unexpected .assign) "unexpected token ':='" ∧
      Position.mk 2 1 = ⟨("X :=\n:= ; #".toList.take 5).count '\n' + 1,
        (("X :=\n:= ; #".toList.take 5).reverse.takeWhile (· != '\n')).length + 1⟩) ∧
    (∀ fault m, StopsAt "X :=\n:= ; #" 5 fault m →
      fault = .unexpected .assign ∧ m = "unexpected token ':='") ∧
    (ParseError.mk (.unexpected .assign) 5 ⟨2, 1⟩).offset ≤ 8 ∧
    StopsAt "X 007" 2 (.unexpected (.number 7)) "unexpected token '7'" ∧
    StopsAt "X := A B" 7 (.unexpected (.var "B")) "unexpected token 'B'" ∧
    StopsAt "skip; $" 6 (.lexical (.illegal '$')) "illegal character '$'" ∧
    StopsAt "X := Yes" 5 (.lexical (.badWord "Yes"))
      "unexpected word 'Yes' (variables are upper-case)" := by
  have hstops : ∀ text e, Stmt.parse text = .error e → StopsAt text e.offset e.fault e.text :=
    fun text e hp => (((Stmt.parse_first_fault text).1 e).mp hp).2.1
  have hseven : (ParseFault.unexpected (.number 7)).text = "unexpected token '7'" := by decide
  obtain ⟨herror, hunique, hfirst⟩ := Stmt.parse_first_fault "X :=\n:= ; #"
  have hplace := (herror _).mp parse_misplaced
  refine ⟨hplace, fun fault m h => hunique 5 _ _ _ _ h hplace.2.1,
    hfirst _ parse_misplaced .semi 8 2 ?_ ?_, hseven ▸ hstops _ _ parse_leadingZeros,
    hstops _ _ parse_secondName, hstops _ _ parse_noMark, hstops _ _ parse_smallLetters⟩
  · rw [ofString_misplaced]
    simp [TokenStream.entries]
  · rw [ofString_misplaced, viable_iff_steps]
    rintro ⟨u, hu⟩
    cases hu

end WhileLang
