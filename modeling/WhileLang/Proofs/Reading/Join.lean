import WhileLang.Proofs.Printing.RoundTrip
import WhileLang.Proofs.Reading.FirstFault
import WhileLang.Proofs.Reading.Inside
import WhileLang.Proofs.Run.Ends
import WhileLang.Proofs.Tree.Chain

/-!
# Joined texts

A program, a semicolon and any text behind it are read as that text is read by itself.  The
tokens of the program are read off in front of the semicolon, since a semicolon continues no
token (`Laid.read_append`).  They and the semicolon lead to a front, inside which the reader
takes the same tokens (`Unfinished.read_inside`), and only the offsets are those behind the
semicolon (`Unfinished.read_ofChars_add`).

So joining texts is joining their programs, and a fault of the second text is the fault of both
(`Stmt.read_join`).  The joined program is the chain of the top-level statements of the two
(`Grammar.Statement.append_eq_chain`).
-/

namespace WhileLang

open Grammar

/-! ### The texts in order -/

/-- The tokens of a layout are read off it in front of anything that continues no token. -/
theorem Laid.read_append {ts : List Token} {cs rest : List Char} (h : Laid ts cs)
    (hrest : Closes rest) {u v : Unfinished} (hv : u.steps ts = some v)
    (offset line : Nat) :
    ∃ line', u.read (TokenStream.ofChars offset line (cs ++ rest)) =
      v.read (TokenStream.ofChars (offset + cs.length) line' rest) := by
  induction h generalizing u offset line with
  | done =>
    cases hv
    exact ⟨line, rfl⟩
  | @blank ts c cs hc _ ih =>
    obtain ⟨line', hread⟩ := ih hv (offset + 1) (if c = '\n' then line + 1 else line)
    refine ⟨line', ?_⟩
    rw [List.cons_append, TokenStream.ofChars, Lexeme.ofChars_of_isBlank hc, List.length_cons,
      Nat.add_comm cs.length, ← Nat.add_assoc]
    exact hread
  | @token t ts cs more ht hend _ ih =>
    have hends : t.EndsBefore (more ++ rest) := by
      intro d hd
      cases more with
      | nil => exact hrest t d hd
      | cons d' more => exact hend d hd
    cases hs : u.step t with
    | none =>
      rw [Unfinished.steps_cons_of_none hs] at hv
      cases hv
    | some u' =>
      rw [Unfinished.steps_cons hs] at hv
      obtain ⟨line', hread⟩ := ih hv (offset + cs.length) line
      refine ⟨line', ?_⟩
      rw [List.append_assoc, TokenStream.ofChars_of_spells ht hends, Unfinished.read, hs,
        List.length_append, ← Nat.add_assoc]
      exact hread

/-- Where a text begins makes no difference to what is read, only to the offset of a fault. -/
theorem Unfinished.read_ofChars_add (u : Unfinished) (k offset line line' : Nat)
    (cs : List Char) :
    u.read (TokenStream.ofChars (k + offset) line cs) =
      (u.read (TokenStream.ofChars offset line' cs)).mapError
        fun (fault, o) => (fault, k + o) := by
  fun_induction TokenStream.ofChars offset line' cs generalizing u line with
  | case1 offset line' =>
    rw [TokenStream.ofChars, read, read]
    cases u.finish? <;> rfl
  | case2 offset line' c cs hc ih =>
    rw [TokenStream.ofChars, hc]
    exact ih u _
  | case3 offset line' c cs t more ht ih =>
    rw [TokenStream.ofChars, ht]
    simp only [read]
    cases u.step t with
    | none => rfl
    | some v =>
      have hoffset : k + offset + 1 + more = k + (offset + 1 + more) := by omega
      rw [hoffset]
      exact ih v line
  | case4 offset line' c cs cause hc =>
    rw [TokenStream.ofChars, hc]
    rfl

/-- Behind a program and a semicolon a text is read as by itself: a program is joined to the one
in front, a fault is met at the same place behind the semicolon. -/
theorem Stmt.read_join {text : String} {s : Stmt} (h : parse text = .ok s) (rest : String) :
    Unfinished.start.read (TokenStream.ofString (text ++ ";" ++ rest)) =
      ((Unfinished.start.read (TokenStream.ofString rest)).map (rightNest.append s)).mapError
        fun (fault, o) => (fault, text.length + 1 + o) := by
  obtain ⟨ts, hlaid, hs⟩ := parse_eq_ok_iff_laid.mp h
  obtain ⟨outer, u, hu, hsemi, hfront⟩ := hs.exists_front
  have hchars : (text ++ ";" ++ rest).toList = text.toList ++ ([';'] ++ rest.toList) := by
    simp
  obtain ⟨line, hread⟩ := hlaid.read_append (closes_semi rest.toList) hu 0 1
  have hoffset : 0 + text.toList.length + [';'].length = text.length + 1 + 0 := by
    rw [Nat.zero_add, String.length_toList]
    rfl
  have hshift := Unfinished.start.read_ofChars_add (text.length + 1) 0 line 1 rest.toList
  calc Unfinished.start.read (TokenStream.ofString (text ++ ";" ++ rest))
      = u.read (TokenStream.ofChars (0 + text.toList.length) line ([';'] ++ rest.toList)) := by
        rw [TokenStream.ofString, hchars]
        exact hread
    _ = (Unfinished.start.inside outer).read
          (TokenStream.ofChars (text.length + 1 + 0) line rest.toList) := by
        rw [TokenStream.ofChars_of_spells .semi (fun _ _ => rfl), Unfinished.read, hsemi, hoffset]
    _ = ((Unfinished.start.read (TokenStream.ofString rest)).mapError
          fun (fault, o) => (fault, text.length + 1 + o)).map (rightNest.append s) := by
        rw [Unfinished.read_inside hfront, hshift, TokenStream.ofString]
    _ = _ := by cases Unfinished.start.read (TokenStream.ofString rest) <;> rfl

/-! ### The programs in order -/

namespace Stmt

theorem flatten_append (s t : Stmt) : (rightNest.append s t).flatten = s.flatten ++ t.flatten := by
  induction s with
  | seq first second _ ih =>
    rw [rightNest.append, flatten_seq, flatten_seq, ih, List.append_assoc]
  | _ => exact flatten_seq _ t

theorem render_append (s t : Stmt) :
    (rightNest.append s t).render = s.render ++ "; " ++ t.render := by
  induction s with
  | seq first second _ ih =>
    rw [rightNest.append, render, render, ih]
    simp only [String.append_assoc]
  | _ => rfl

theorem ends_append_flatten_iff {s t : Stmt} {st : Store} {o : Outcome} :
    Ends [chain (s.flatten ++ t.flatten)] st o ↔
      (∃ mid, Ends [s] st (.finished mid) ∧ Ends [t] mid o) ∨
        ∃ e, o = .stopped e ∧ Ends [s] st (.stopped e) := by
  rw [ends_chain_iff, ends_append_iff]
  simp only [ends_flatten_iff]

end Stmt

theorem Grammar.Simple.flatten_eq {ts : List Token} {s : Stmt} (h : Simple ts s) :
    s.flatten = [s] := by
  cases h <;> exact Stmt.flatten_of_not_isSeq rfl

theorem Grammar.Statement.chain_flatten {ts : List Token} {s : Stmt} (h : Statement ts s) :
    Stmt.chain s.flatten = s := by
  cases h with
  | simple h =>
    rw [h.flatten_eq]
    rfl
  | @seq ts us first second h1 h2 =>
    rw [Stmt.flatten_seq, h1.flatten_eq, List.singleton_append,
      Stmt.chain_cons second.flatten_ne_nil, Grammar.Statement.chain_flatten h2]

theorem Grammar.Statement.append_eq_chain {ts us : List Token} {s t : Stmt} (hs : Statement ts s)
    (ht : Statement us t) :
    Stmt.rightNest.append s t = Stmt.chain (s.flatten ++ t.flatten) := by
  rw [← Stmt.flatten_append, (hs.append ht).chain_flatten]

/-! ### Joining -/

/-- **Joining texts joins their programs, and keeps their faults.**  Behind a program and a
semicolon, another program makes the chain of the top-level statements of both.  It is printed
as the two with a semicolon between them; it runs as the first one and then, from the store with
which that one ends, as the second one.  A text that is no program makes none behind the
semicolon either: the fault and its wording are the same, as far behind the semicolon as they
are behind the beginning of the text by itself. -/
theorem Stmt.parse_join {front : String} {p : Stmt} (h : parse front = .ok p) (back : String) :
    (∀ q, parse back = .ok q → ∃ r, parse (front ++ ";" ++ back) = .ok r ∧
      r = chain (p.flatten ++ q.flatten) ∧ r.render = p.render ++ "; " ++ q.render ∧
      ∀ st o, (∃ n, r.run n st = some o) ↔
        (∃ mid, (∃ n, p.run n st = some (.finished mid)) ∧ ∃ n, q.run n mid = some o) ∨
          ∃ e, o = .stopped e ∧ ∃ n, p.run n st = some (.stopped e)) ∧
    ∀ e, parse back = .error e → ∃ e', parse (front ++ ";" ++ back) = .error e' ∧
      e'.fault = e.fault ∧ e'.text = e.text ∧ e'.offset = front.length + 1 + e.offset ∧
      e'.position = Position.ofOffset (front ++ ";" ++ back).toList e'.offset := by
  have hjoin := read_join h back
  constructor
  · intro q hq
    obtain ⟨ts, -, hp⟩ := parse_eq_ok_iff_laid.mp h
    obtain ⟨us, -, hq'⟩ := parse_eq_ok_iff_laid.mp hq
    have hchain := hp.append_eq_chain hq'
    rw [parse_eq_ok_iff_read.mp hq] at hjoin
    refine ⟨rightNest.append p q, parse_eq_ok_iff_read.mpr hjoin, hchain, render_append p q,
      fun st o => ?_⟩
    rw [hchain]
    simp only [← ends_iff_run]
    exact ends_append_flatten_iff
  · intro e he
    rw [(parse_eq_error he).1] at hjoin
    refine ⟨⟨e.fault, front.length + 1 + e.offset, Position.ofOffset (front ++ ";" ++ back).toList
      (front.length + 1 + e.offset)⟩, ?_, rfl, rfl, rfl, rfl⟩
    rw [parse, hjoin]
    rfl

/-- The program `X := 1; Y := 0`. -/
def settled : Stmt := .seq (.assign "X" (.lit (.int 1))) (.assign "Y" (.lit (.int 0)))

/-- The program `Z := X / Y; skip`. -/
def divided : Stmt := .seq (.assign "Z" (.bin .divide (.var "X") (.var "Y"))) .skip

theorem parse_settled : Stmt.parse "X := 1;\nY := 0" = .ok settled := by
  have hstream : TokenStream.ofString "X := 1;\nY := 0" =
      .token (.var "X") 0 1 (.token .assign 2 1 (.token (.number 1) 5 1 (.token .semi 6 1
        (.token (.var "Y") 8 2 (.token .assign 10 2 (.token (.number 0) 13 2
          (.finish 14 2))))))) := by decide +kernel
  rw [Stmt.parse, hstream]
  rfl

theorem parse_divided : Stmt.parse "Z := X / Y; skip" = .ok divided := by
  have hstream : TokenStream.ofString "Z := X / Y; skip" =
      .token (.var "Z") 0 1 (.token .assign 2 1 (.token (.var "X") 5 1 (.token (.op .divide) 7 1
        (.token (.var "Y") 9 1 (.token .semi 10 1 (.token (.keyword .skipWord) 12 1
          (.finish 16 1))))))) := by decide +kernel
  rw [Stmt.parse, hstream]
  rfl

theorem parse_unclosed :
    Stmt.parse "\nwhile X > 0 do skip" = .error ⟨.unexpectedEnd, 20, ⟨2, 20⟩⟩ := by
  have hstream : TokenStream.ofString "\nwhile X > 0 do skip" =
      .token (.keyword .whileWord) 1 2 (.token (.var "X") 7 2 (.token (.op .gt) 9 2
        (.token (.number 0) 11 2 (.token (.keyword .doWord) 13 2
          (.token (.keyword .skipWord) 16 2 (.finish 20 2)))))) := by decide +kernel
  rw [Stmt.parse, hstream]
  rfl

/-- The joined program stops where its second part does.  The end of a loop that is not closed
is missing behind the fourteen characters of the first text and the semicolon too. -/
theorem parse_join_settled :
    (∃ r, Stmt.parse ("X := 1;\nY := 0" ++ ";" ++ "Z := X / Y; skip") = .ok r ∧
      r.render = "X := 1; Y := 0; Z := X / Y; skip" ∧
      ∃ n, r.run n ∅ = some (.stopped (.failed ⟨.divisionByZero,
        .bin .divide (.var "X") (.var "Y"),
        some (.assign "Z" (.bin .divide (.var "X") (.var "Y")))⟩))) ∧
    ∃ e, Stmt.parse ("X := 1;\nY := 0" ++ ";" ++ "\nwhile X > 0 do skip") = .error e ∧
      e.text = "unexpected end of input" ∧ e.offset = 35 := by
  obtain ⟨hprogram, -⟩ := Stmt.parse_join parse_settled "Z := X / Y; skip"
  obtain ⟨-, hfault⟩ := Stmt.parse_join parse_settled "\nwhile X > 0 do skip"
  constructor
  · obtain ⟨r, hr, -, hrender, hrun⟩ := hprogram divided parse_divided
    exact ⟨r, hr, hrender.trans (by decide +kernel),
      (hrun ∅ _).mpr (Or.inl ⟨_, ⟨10, rfl⟩, 10, rfl⟩)⟩
  · obtain ⟨e, he, -, htext, hoffset, -⟩ := hfault _ parse_unclosed
    exact ⟨e, he, htext, hoffset⟩

end WhileLang
