import WhileLang.Proofs.Session.Turn

/-!
# Programs typed into a session

No program is lost to the commands of a session.  A program begins with a keyword or with a
name that is assigned to.  A keyword is no command, and what follows it in the first word of the
line makes none of it.  A name may be spelled like a command, as `EOF` is, but it is the whole
first word, and the mark `:=` behind it is more text, so the rule for words in capitals applies
(`TypedLine.command_of_name`).

`Store.answer_of_parse` says what such a line comes to: it is read as the same program without
the blanks at its ends, and answered by what the gate and the run make of this program.
-/

namespace WhileLang

/-- What is assigned does not run on from the name in front of it. -/
theorem Laid.not_isWordChar {ts : List Token} {cs : List Char} (h : Laid (.assign :: ts) cs) :
    ∀ c, cs.head? = some c → isWordChar c = false := by
  cases h with
  | @blank _ c cs hc _ =>
    rintro _ ⟨⟩
    simp only [Lexeme.isBlank, Bool.or_eq_true, beq_iff_eq] at hc
    rcases hc with ((rfl | rfl) | rfl) | rfl <;> decide
  | token ht =>
    cases ht
    rintro _ ⟨⟩
    decide

theorem isCapital_of_isUpper {cs : List Char} (hne : cs ≠ []) (hu : ∀ c ∈ cs, c.isUpper = true) :
    isCapital (String.ofList cs) = true := by
  have hany : cs.any Char.isUpper = true := by
    obtain ⟨c, cs, rfl⟩ := List.exists_cons_of_ne_nil hne
    exact List.any_eq_true.mpr ⟨c, List.mem_cons_self, hu c List.mem_cons_self⟩
  have hsmall : cs.any Char.isLower = false := by
    rw [List.any_eq_false]
    intro c hc hl
    have hupper := toNat_of_isUpper (hu c hc)
    have hlower := toNat_of_isLower hl
    omega
  rw [isCapital, String.toList_ofList, hany, hsmall]
  rfl

namespace TypedLine

/-- A line on which a program begins with a name has no command. -/
theorem command_of_name {text name : String} {p : Stmt} {ts : List Token}
    (h : Stmt.parse text = .ok p)
    (hts : (TokenStream.ofString text).tokens = .var name :: ts) :
    (ofString text).command = none := by
  obtain ⟨us, hl, hs⟩ := Stmt.parse_eq_ok_iff_laid.mp h
  obtain rfl : _ = us := (laid_iff.mp hl).2
  rw [hts] at hl hs
  obtain ⟨rest, rfl⟩ : ∃ rest, ts = .assign :: rest := by
    rcases hs.exists_head with ⟨k, rest, he⟩ | ⟨name, rest, he⟩
    · cases he
    · cases he
      exact ⟨rest, rfl⟩
  obtain ⟨letters, behind, hline, hspells, -, hbehind⟩ :=
    hl.stripped.exists_spelling fun _ => head?_strip
  cases hspells with
  | var hne hu =>
    -- the first word is the name, all of it and no more
    have hfirst : (strip text).toList.takeWhile isWordChar = letters := by
      rw [hline]
      exact takeWhile_append_of_head
        (fun c hc => isWordChar_of_isAlpha (isAlpha_of_isUpper (hu c hc))) hbehind.not_isWordChar
    obtain ⟨-, hnone | ⟨word, _, -, hword, hcap⟩⟩ := ofString_of_parse (Stmt.parse_strip h)
    · rw [hnone]
    · obtain rfl : word = String.ofList letters := by
        rw [← String.ofList_toList (s := word), ← hword, hfirst]
      rw [hcap (isCapital_of_isUpper hne hu), String.toList_ofList] at hline
      exact absurd (List.append_cancel_left ((List.append_nil _).trans hline)).symm hbehind.ne_nil

theorem command_ne_of_program {text t : String} (h : (ofString text).request = .program t) :
    ∀ word ∈ ["help", "store", "reset", "EOF"], (ofString text).command ≠ some word := by
  obtain ⟨-, hhelp, hstore, hreset, hleave, -⟩ := request_table text
  rw [h] at hhelp hstore hreset hleave
  intro word hw hc
  simp only [List.mem_cons, List.not_mem_nil, or_false] at hw
  rcases hw with rfl | rfl | rfl | rfl
  · obtain ⟨_, hr⟩ := hhelp.mpr hc
    cases hr
  · cases hstore.mpr hc
  · cases hreset.mpr hc
  · cases hleave.mpr hc

end TypedLine

/-- **No program is lost to the commands.**  A text that is a program is the same program without
the blanks at its ends, and as a line of a session it is neither blank nor any command: if it
begins with a name, the line has no command at all, whatever the name.  So it is answered by what
the gate, given the names that the store binds, and the run from this store make of the program,
and the session goes on. -/
theorem Store.answer_of_parse {text : String} {p : Stmt} (h : Stmt.parse text = .ok p)
    (st : Store) :
    Stmt.parse (strip text) = .ok p ∧
    (strip text ≠ "" ∧ (TypedLine.ofString text).line = strip text) ∧
    (∀ word ∈ ["help", "store", "reset", "EOF"], (TypedLine.ofString text).command ≠ some word) ∧
    (∀ name ts, (TokenStream.ofString text).tokens = .var name :: ts →
      (TypedLine.ofString text).command = none) ∧
    (TypedLine.ofString text).request = .program (strip text) ∧
    ∀ n, st.answer n text =
      if (p.exposedFrom st.keys).isEmpty then
        (p.run n st).map fun
          | .finished st' => ⟨st'.render ++ "\n", false, st', [.parsed p.flatten.length], none⟩
          | .stopped e =>
            ⟨"Error: " ++ e.message ++ "\n", false, st, [.parsed p.flatten.length], none⟩
      else
        some ⟨"Rejected: may read before assignment: " ++ (p.exposedFrom st.keys).listed ++ "\n",
          false, st, [.parsed p.flatten.length], none⟩ := by
  have hp := Stmt.parse_strip h
  have hrequest := TypedLine.request_of_parse hp
  obtain ⟨hne, hline⟩ := TypedLine.ofString_of_parse hp
  refine ⟨hp, ⟨hne, ?_⟩, ?_, fun name ts => TypedLine.command_of_name h, hrequest, fun n => ?_⟩
  · rcases hline with h | ⟨_, _, h, -⟩ <;> rw [h]
  · exact TypedLine.command_ne_of_program hrequest
  · cases hg : (p.exposedFrom st.keys).isEmpty with
    | false =>
      rw [answer, hrequest]
      exact answerProgram_of_rejected hp hg
    | true =>
      rw [answer_of_gate hp hg, if_pos rfl]
      cases hr : p.run n st with
      | none => rfl
      | some o =>
        cases o with
        | finished st' => rfl
        | stopped e =>
          cases e with
          | failed f => rfl
          | unbound x =>
            exact absurd (Stmt.ends_iff_run.mpr ⟨n, hr⟩) (Stmt.not_ends_unbound hg)

theorem ofString_successor : TokenStream.ofString "\n EOF:=X + 1 " =
    .token (.var "EOF") 2 2 (.token .assign 5 2 (.token (.var "X") 7 2
      (.token (.op .plus) 9 2 (.token (.number 1) 11 2 (.finish 13 2))))) := by
  decide +kernel

/-- A program that assigns to `EOF`, with blanks around it and none in front of the mark.  Where
`X` is bound it is run, and where it is not it is rejected; neither ends the session. -/
theorem answer_of_parse_successor :
    (TypedLine.ofString "\n EOF:=X + 1 ").command = none ∧
    Store.answer ⟨[("X", .int 1)]⟩ 1 "\n EOF:=X + 1 " =
      some ⟨"\x7bEOF: 2, X: 1\x7d\n", false, ⟨[("EOF", .int 2), ("X", .int 1)]⟩, [.parsed 1],
        none⟩ ∧
    Store.answer ∅ 1 "\n EOF:=X + 1 " =
      some ⟨"Rejected: may read before assignment: X\n", false, ∅, [.parsed 1], none⟩ := by
  have hp : Stmt.parse "\n EOF:=X + 1 " =
      .ok (.assign "EOF" (.bin .plus (.var "X") (.lit (.int 1)))) := by
    rw [Stmt.parse, ofString_successor]
    rfl
  obtain ⟨-, -, -, hname, -, hbound⟩ := Store.answer_of_parse hp ⟨[("X", .int 1)]⟩
  obtain ⟨-, -, -, -, -, hunbound⟩ := Store.answer_of_parse hp ∅
  refine ⟨hname "EOF" _ (by rw [ofString_successor]; rfl), ?_, ?_⟩
  · rw [hbound 1]
    decide +kernel
  · rw [hunbound 1]
    decide +kernel

end WhileLang
