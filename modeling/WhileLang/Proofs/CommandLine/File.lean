import WhileLang.CommandLine
import WhileLang.Proofs.Analysis.Soundness

/-!
# Calls on a file

A program in a file is run in three ways: by a call on the file, by such a call without the
gate, and by printing the file.  All three read the file in the same way, and what each of
them does is then settled by one case distinction, `file_cases`: the text is no program, or
the program is rejected, or it is safe and comes to its end, fails, or does not stop within
the budget.

That a safe program never stops at an unbound name (`Stmt.run_ne_unbound`) does two things here.
No error escapes from a call behind the gate, and such a call is the same as one without the gate
(`Settings.reportChecked_of_safe`).

What a call reports is a text, and a reader takes the kind of an error from it.  The wording of an
unbound name is that of no failed operation (`RunError.eq_of_message`) and ends like no error of
a program text (`ParseError.append_message_ne`), whatever the name of the file is.
-/

namespace WhileLang

/-! ### The wording of errors -/

theorem ending_eq {front front' ending ending' : String}
    (h : front ++ ending = front' ++ ending')
    (hl : ending.toList.length = ending'.toList.length) : ending = ending' := by
  have hchars := congrArg String.toList h
  rw [String.toList_append, String.toList_append] at hchars
  exact String.toList_injective (List.append_inj' hchars hl).2

theorem ParseFault.exists_ending (fault : ParseFault) :
    ∃ front, ∃ ending ∈ ["'", ")", "ut"], fault.text = front ++ ending := by
  cases fault with
  | lexical cause =>
    cases cause with
    | illegal c => exact ⟨"illegal character " ++ "'" ++ String.singleton c, "'", by simp, rfl⟩
    | badWord word =>
      refine ⟨"unexpected word '" ++ word ++ "' (variables are upper-case", ")", by simp, ?_⟩
      rw [String.append_assoc]
      rfl
  | unexpected t => exact ⟨"unexpected token '" ++ t.text, "'", by simp, rfl⟩
  | unexpectedEnd => exact ⟨"unexpected end of inp", "ut", by simp, rfl⟩

theorem ParseError.exists_ending (e : ParseError) (before : String) :
    ∃ front, ∃ ending ∈ ["'", ")", "ut"], before ++ e.message = front ++ ending := by
  obtain ⟨front, ending, hmem, htext⟩ := e.fault.exists_ending
  rw [message, located, text, htext, ← String.append_assoc, ← String.append_assoc]
  exact ⟨_, ending, hmem, rfl⟩

theorem RunError.exists_ending_unbound (x before : String) :
    (∃ front, before ++ (unbound x).message = front ++ "t") ∧
      ∃ front, before ++ (unbound x).message = front ++ "nt" := by
  constructor
  · refine ⟨before ++ ("variable " ++ inQuotes x ++ " read before assignmen"), ?_⟩
    rw [String.append_assoc, String.append_assoc]
    rfl
  · refine ⟨before ++ ("variable " ++ inQuotes x ++ " read before assignme"), ?_⟩
    rw [String.append_assoc, String.append_assoc]
    rfl

/-- Whatever stands in front, no error of a program text reads like an unbound name. -/
theorem ParseError.append_message_ne (e : ParseError) (before before' x : String) :
    before ++ e.message ≠ before' ++ (RunError.unbound x).message := by
  intro h
  obtain ⟨front, ending, hmem, htext⟩ := e.exists_ending before
  obtain ⟨⟨short, hshort⟩, long, hlong⟩ := RunError.exists_ending_unbound x before'
  simp only [List.mem_cons, List.not_mem_nil, or_false] at hmem
  -- the last letter decides, but for a text that ends early: "input" and "assignment" share it
  rcases hmem with rfl | rfl | rfl
  · rw [htext, hshort] at h
    have hlast : "'" = "t" := ending_eq h (by decide)
    exact absurd hlast (by decide)
  · rw [htext, hshort] at h
    have hlast : ")" = "t" := ending_eq h (by decide)
    exact absurd hlast (by decide)
  · rw [htext, hlong] at h
    have hlast : "ut" = "nt" := ending_eq h (by decide)
    exact absurd hlast (by decide)

theorem Failure.head?_message (f : Failure) :
    f.message.toList.head? = some 'o' ∨ f.message.toList.head? = some 'd' := by
  cases hc : f.cause with
  | kinds op left right =>
    simp only [message, hc, placed, OperandError.message, String.toList_append, List.head?_append,
      Option.or_assoc]
    exact Or.inl rfl
  | divisionByZero =>
    simp only [message, hc, placed, OperandError.message, String.toList_append, List.head?_append,
      Option.or_assoc]
    exact Or.inr rfl

theorem RunError.head?_message_unbound (x : String) :
    (unbound x).message.toList.head? = some 'v' := by
  simp only [message, String.toList_append, List.head?_append, Option.or_assoc]
  rfl

/-- The wording of an unbound name tells the name. -/
theorem RunError.eq_of_message {e : RunError} {x : String}
    (h : e.message = (unbound x).message) : e = unbound x := by
  cases e with
  | unbound y =>
    rw [message, message, inQuotes, inQuotes] at h
    simp only [String.append_left_inj, String.append_right_inj] at h
    rw [h]
  | failed f =>
    have hv := head?_message_unbound x
    rw [← h, message] at hv
    rcases f.head?_message with ho | hd
    · rw [ho] at hv
      exact absurd hv (by decide)
    · rw [hd] at hv
      exact absurd hv (by decide)

/-! ### Programs behind the gate -/

theorem Stmt.mem_exposed_of_run_unbound {p : Stmt} {n : Nat} {st : Store} {x : String}
    (h : p.run n st = some (.stopped (.unbound x))) : x ∈ p.analyze.exposed := by
  have hx := (runs_iff_run.mpr h).unbound_mem_exposed.1
  rwa [Analysis.ofAll_singleton] at hx

theorem Stmt.run_ne_unbound {p : Stmt} {n : Nat} {st : Store} {x : String}
    (hs : p.analyze.isSafe = true) : p.run n st ≠ some (.stopped (.unbound x)) := fun h =>
  NameSet.isEmpty_iff.mp hs x (mem_exposed_of_run_unbound h)

/-- The program in a file is missing, rejected, or run to one of its ends, if the budget suffices. -/
theorem file_cases (text : String) (n : Nat) :
    (∃ e, Stmt.parseFile text = .error e) ∨
    (∃ p, Stmt.parseFile text = .ok p ∧ p.analyze.isSafe = false) ∨
    ∃ p, Stmt.parseFile text = .ok p ∧ p.analyze.isSafe = true ∧
      (p.run n ∅ = none ∨ (∃ st, p.run n ∅ = some (.finished st)) ∨
        ∃ f, p.run n ∅ = some (.stopped (.failed f))) := by
  cases hp : Stmt.parseFile text with
  | error e => exact Or.inl ⟨e, rfl⟩
  | ok p =>
    refine Or.inr ?_
    cases hs : p.analyze.isSafe with
    | false => exact Or.inl ⟨p, rfl, hs⟩
    | true =>
      refine Or.inr ⟨p, rfl, hs, ?_⟩
      cases hr : p.run n ∅ with
      | none => exact Or.inl rfl
      | some o =>
        cases o with
        | finished st => exact Or.inr (Or.inl ⟨st, rfl⟩)
        | stopped e =>
          cases e with
          | failed f => exact Or.inr (Or.inr ⟨f, rfl⟩)
          | unbound x => exact absurd hr (Stmt.run_ne_unbound hs)

theorem printFile_of_error {text : String} {e : ParseError} (hp : Stmt.parseFile text = .error e)
    (n : Nat) : printFile text n = some ⟨"", .error (.parse e)⟩ := by
  rw [printFile, hp]

section

variable {text : String} {p : Stmt} {n : Nat} (hp : Stmt.parseFile text = .ok p)
include hp

theorem printFile_of_rejected (hs : p.analyze.isSafe = false) :
    printFile text n = some ⟨rejection p.analyze.exposed, .ok false⟩ := by
  rw [printFile, hp]
  simp only [Stmt.printout, Stmt.interpret, hs]
  rfl

theorem printFile_of_safe (hs : p.analyze.isSafe = true) :
    printFile text n = (p.run n ∅).map fun
      | .finished st => ⟨st.printout, .ok true⟩
      | .stopped e => ⟨"", .error (.run e)⟩ := by
  rw [printFile, hp]
  simp only [Stmt.printout, Stmt.interpret, hs, if_pos]
  cases p.run n ∅ with
  | none => rfl
  | some o => cases o <;> rfl

end

namespace CommandLine

/-! ### The words of a call -/

theorem Word.ofString_of_head {file : String} (h : file.toList.head? ≠ some '-') :
    Word.ofString file = .ok (.plain file) := by
  unfold Word.ofString
  split
  · next hc => rw [hc] at h; exact absurd rfl h
  · next hc => rw [hc] at h; exact absurd rfl h
  · next hc => rw [hc] at h; exact absurd rfl h
  · next hc => rw [hc] at h; exact absurd rfl h
  · rfl

/-- The calls that run a file without the gate. -/
def uncheckedCalls (file : String) : List (List String) :=
  [["--unchecked", file], [file, "--unchecked"]]

theorem Settings.ofArguments_file {file : String} (h : file.toList.head? ≠ some '-') :
    Settings.ofArguments [file] = .ok ⟨some file, none, false, 0⟩ := by
  rw [Settings.ofArguments, Word.ofStrings, Word.ofString_of_head h]
  rfl

theorem Settings.ofArguments_unchecked {file : String} (h : file.toList.head? ≠ some '-') :
    ∀ arguments ∈ uncheckedCalls file,
      Settings.ofArguments arguments = .ok ⟨some file, none, true, 0⟩ := by
  have hword : Word.ofString "--unchecked" = .ok (.long .unchecked none) := rfl
  intro arguments hmem
  simp only [uncheckedCalls, List.mem_cons, List.not_mem_nil, or_false] at hmem
  rcases hmem with rfl | rfl
  · rw [Settings.ofArguments, Word.ofStrings, hword, Word.ofStrings, Word.ofString_of_head h]
    rfl
  · rw [Settings.ofArguments, Word.ofStrings, Word.ofString_of_head h, Word.ofStrings, hword]
    rfl

/-! ### The report on a program -/

theorem log_zero (events : List Event) : Event.log 0 events = "" := by
  have hnone : events.filter (fun e => e.verbosity ≤ 0) = [] := by
    rw [List.filter_eq_nil_iff]
    intro e _
    cases e <;> simp [Event.verbosity]
  rw [Event.log, hnone]
  rfl

namespace Settings

variable {log : String} {p : Stmt} {n : Nat}

theorem reportChecked_of_rejected (hs : p.analyze.isSafe = false) :
    reportChecked log p n = some ⟨2, "", log ++ rejection p.analyze.exposed, none⟩ := by
  simp only [reportChecked, Stmt.interpret, hs]
  rfl

/-- The gate does not show in the report on a safe program. -/
theorem reportChecked_of_safe (hs : p.analyze.isSafe = true) :
    reportChecked log p n = reportUnchecked log p n := by
  simp only [reportChecked, reportUnchecked, Stmt.interpret, hs, if_pos]
  cases hr : p.run n ∅ with
  | none => rfl
  | some o =>
    cases o with
    | finished st => rfl
    | stopped e =>
      cases e with
      | failed f => rfl
      | unbound x => exact absurd hr (Stmt.run_ne_unbound hs)

end Settings

/-! ### Calls -/

section

variable {file text stdin : String} {read : String → Except String String} {n : Nat}
variable (hname : file.toList.head? ≠ some '-') (hread : read file = .ok text)
include hname hread

theorem run_of_file :
    run [file] read stdin n =
      match Stmt.parseFile text with
      | .error e => some ⟨1, "", file ++ ": " ++ e.message ++ "\n", none⟩
      | .ok p => Settings.reportChecked "" p n := by
  simp only [run, Settings.ofArguments_file hname, Settings.reportFile, hread,
    Settings.reportProgram, log_zero]
  rfl

theorem run_of_file_unchecked {arguments : List String} (ha : arguments ∈ uncheckedCalls file) :
    run arguments read stdin n =
      match Stmt.parseFile text with
      | .error e => some ⟨1, "", file ++ ": " ++ e.message ++ "\n", none⟩
      | .ok p => Settings.reportUnchecked "" p n := by
  simp only [run, Settings.ofArguments_unchecked hname arguments ha, Settings.reportFile, hread,
    Settings.reportProgram, log_zero]
  rfl

end

/-! ### Outcomes of a call -/

/-- A call succeeds: the program came to its end, its final store stands on the standard output,
and printing the file prints this text and tells that the program was run. -/
structure Succeeds (text : String) (n : Nat) (report : Report) (printing : FilePrinting) :
    Prop where
  exit : report.exit = 0
  stderr : report.stderr = ""
  ran : ∃ p st, Stmt.parseFile text = .ok p ∧ p.analyze.isSafe = true ∧
    p.run n ∅ = some (.finished st) ∧ report.stdout = "Output Store:\n" ++ st.render ++ "\n"
  printed : printing = ⟨report.stdout, .ok true⟩

/-- A call rejects the program: the names that it exposes stand in their order on the error
output, and printing the file prints this text and tells that the program was not run. -/
structure Rejects (text : String) (report : Report) (printing : FilePrinting) : Prop where
  exit : report.exit = 2
  stdout : report.stdout = ""
  rejected : ∃ p, Stmt.parseFile text = .ok p ∧ p.analyze.isSafe = false ∧
    report.stderr = "Program rejected: may read before assignment: "
      ++ ", ".intercalate p.analyze.exposed.names ++ "\n"
  printed : printing = ⟨report.stderr, .ok false⟩

/-- A call fails: the wording of an error stands on the error output, and printing the file raises
this error and prints nothing.  The error is one of the program text, and then stands behind the
name of the file, or one of an operation that failed in the run of a safe program. -/
structure Fails (file text : String) (n : Nat) (report : Report) (printing : FilePrinting) :
    Prop where
  exit : report.exit = 1
  stdout : report.stdout = ""
  error : ∃ e : FileError, printing = ⟨"", .error e⟩ ∧
    ((∃ cause, e = .parse cause ∧ Stmt.parseFile text = .error cause ∧
        report.stderr = file ++ ": " ++ e.message ++ "\n") ∨
      ∃ p f, e = .run (.failed f) ∧ Stmt.parseFile text = .ok p ∧ p.analyze.isSafe = true ∧
        p.run n ∅ = some (.stopped (.failed f)) ∧
        report.stderr = "Runtime error: " ++ e.message ++ "\n")

def ExactlyOne (a b c : Prop) : Prop := (a ∧ ¬b ∧ ¬c) ∨ (¬a ∧ b ∧ ¬c) ∨ (¬a ∧ ¬b ∧ c)

theorem exactlyOne_of_or {file text : String} {n : Nat} {report : Report} {printing : FilePrinting}
    (h : Succeeds text n report printing ∨ Rejects text report printing ∨
      Fails file text n report printing) :
    ExactlyOne (Succeeds text n report printing) (Rejects text report printing)
      (Fails file text n report printing) := by
  have hapart : ∀ {i j : Nat}, i ≠ j → report.exit = i → report.exit ≠ j :=
    fun hij hi hj => hij (hi.symm.trans hj)
  rcases h with h | h | h
  · exact Or.inl ⟨h, fun h' => hapart (by decide) h.exit h'.exit,
      fun h' => hapart (by decide) h.exit h'.exit⟩
  · exact Or.inr (Or.inl ⟨fun h' => hapart (by decide) h.exit h'.exit, h,
      fun h' => hapart (by decide) h.exit h'.exit⟩)
  · exact Or.inr (Or.inr ⟨fun h' => hapart (by decide) h.exit h'.exit,
      fun h' => hapart (by decide) h.exit h'.exit, h⟩)

/-- The exit code tells which of the three outcomes it is. -/
theorem outcome_of_exit {file text : String} {n : Nat} {report : Report} {printing : FilePrinting}
    (h : ExactlyOne (Succeeds text n report printing) (Rejects text report printing)
      (Fails file text n report printing)) :
    (report.exit = 0 → Succeeds text n report printing) ∧
      (report.exit = 2 → Rejects text report printing) ∧
      (report.exit = 1 → Fails file text n report printing) := by
  rcases h with ⟨h, -⟩ | ⟨-, h, -⟩ | ⟨-, -, h⟩
  · simp [h.exit, h]
  · simp [h.exit, h]
  · simp [h.exit, h]

section

variable {file text stdin : String} {read : String → Except String String} {n : Nat}
variable {report : Report}
variable (hname : file.toList.head? ≠ some '-') (hread : read file = .ok text)
include hname hread

/-- A call on a file has one of the three outcomes, and no error escapes from it. -/
theorem outcome_of_run (h : run [file] read stdin n = some report) :
    report.escaped = none ∧ ∃ printing, printFile text n = some printing ∧
      (Succeeds text n report printing ∨ Rejects text report printing ∨
        Fails file text n report printing) := by
  rw [run_of_file hname hread] at h
  rcases file_cases text n with ⟨e, hp⟩ | ⟨p, hp, hs⟩ | ⟨p, hp, hs, hnone | ⟨st, hr⟩ | ⟨f, hr⟩⟩
  · rw [hp] at h
    cases h
    exact ⟨rfl, _, printFile_of_error hp n,
      Or.inr (Or.inr ⟨rfl, rfl, .parse e, rfl, Or.inl ⟨e, rfl, hp, rfl⟩⟩)⟩
  · simp only [hp, Settings.reportChecked_of_rejected hs] at h
    cases h
    exact ⟨rfl, _, printFile_of_rejected hp hs,
      Or.inr (Or.inl ⟨rfl, rfl, ⟨p, hp, hs, rfl⟩, rfl⟩)⟩
  · simp only [hp, Settings.reportChecked_of_safe hs, Settings.reportUnchecked, hnone] at h
    cases h
  · have hprint := printFile_of_safe hp hs (n := n)
    simp only [hp, Settings.reportChecked_of_safe hs, Settings.reportUnchecked, hr] at h
    rw [hr] at hprint
    cases h
    exact ⟨rfl, _, hprint, Or.inl ⟨rfl, rfl, ⟨p, st, hp, hs, hr, rfl⟩, rfl⟩⟩
  · have hprint := printFile_of_safe hp hs (n := n)
    simp only [hp, Settings.reportChecked_of_safe hs, Settings.reportUnchecked, hr] at h
    rw [hr] at hprint
    cases h
    exact ⟨rfl, _, hprint,
      Or.inr (Or.inr ⟨rfl, rfl, .run (.failed f), rfl, Or.inr ⟨p, f, rfl, hp, hs, hr, rfl⟩⟩)⟩

/-- A call on a file ends, unless the program is safe and diverges. -/
theorem exists_run_iff :
    (∃ n report, run [file] read stdin n = some report) ↔
      ∀ p, Stmt.parseFile text = .ok p → p.analyze.isSafe = true → ∃ n o, p.run n ∅ = some o := by
  simp only [run_of_file hname hread]
  cases Stmt.parseFile text with
  | error e => exact ⟨fun _ p hp => (nomatch hp), fun _ => ⟨0, _, rfl⟩⟩
  | ok p =>
    cases hs : p.analyze.isSafe with
    | false =>
      refine ⟨fun _ q hq hq' => ?_, fun _ => ⟨0, _, Settings.reportChecked_of_rejected hs⟩⟩
      cases hq
      rw [hs] at hq'
      cases hq'
    | true =>
      simp only [Settings.reportChecked_of_safe hs, Settings.reportUnchecked, Option.map_eq_some_iff]
      constructor
      · rintro ⟨n, _, o, hr, -⟩ q hq -
        cases hq
        exact ⟨n, o, hr⟩
      · intro h
        obtain ⟨n, o, hr⟩ := h p rfl hs
        exact ⟨n, _, o, hr, rfl⟩

variable {arguments : List String} (ha : arguments ∈ uncheckedCalls file)
include ha

theorem exists_run_unchecked_iff :
    (∃ n report, run arguments read stdin n = some report) ↔
      ∀ p, Stmt.parseFile text = .ok p → ∃ n o, p.run n ∅ = some o := by
  simp only [run_of_file_unchecked hname hread ha]
  cases Stmt.parseFile text with
  | error e => exact ⟨fun _ p hp => (nomatch hp), fun _ => ⟨0, _, rfl⟩⟩
  | ok p =>
    simp only [Settings.reportUnchecked, Option.map_eq_some_iff]
    constructor
    · rintro ⟨n, _, o, hr, -⟩ q hq
      cases hq
      exact ⟨n, o, hr⟩
    · intro h
      obtain ⟨n, o, hr⟩ := h p rfl
      exact ⟨n, _, o, hr, rfl⟩

theorem run_unchecked_of_safe {p : Stmt} (hp : Stmt.parseFile text = .ok p)
    (hs : p.analyze.isSafe = true) :
    run arguments read stdin n = run [file] read stdin n := by
  rw [run_of_file_unchecked hname hread ha, run_of_file hname hread, hp]
  exact (Settings.reportChecked_of_safe hs).symm

theorem exit_of_run_unchecked (h : run arguments read stdin n = some report) :
    report.escaped = none ∧ report.exit ≠ 2 := by
  rw [run_of_file_unchecked hname hread ha] at h
  cases hp : Stmt.parseFile text with
  | error e =>
    rw [hp] at h
    cases h
    exact ⟨rfl, by simp⟩
  | ok p =>
    simp only [hp, Settings.reportUnchecked, Option.map_eq_some_iff] at h
    obtain ⟨o, -, rfl⟩ := h
    cases o with
    | finished st => exact ⟨rfl, by simp⟩
    | stopped e => exact ⟨rfl, by simp [Settings.stoppedReport]⟩

theorem run_of_reported {x : String} (h : run arguments read stdin n = some report)
    (hx : report.stderr = "Runtime error: " ++ (RunError.unbound x).message ++ "\n") :
    ∃ p, Stmt.parseFile text = .ok p ∧ p.run n ∅ = some (.stopped (.unbound x)) := by
  rw [run_of_file_unchecked hname hread ha] at h
  cases hp : Stmt.parseFile text with
  | error e =>
    rw [hp] at h
    cases h
    exact absurd ((String.append_left_inj _).mp hx) (e.append_message_ne _ _ x)
  | ok p =>
    simp only [hp, Settings.reportUnchecked, Option.map_eq_some_iff] at h
    obtain ⟨o, hr, rfl⟩ := h
    cases o with
    | finished st =>
      have hempty := hx.symm
      simp at hempty
    | stopped e =>
      simp only [Settings.stoppedReport, String.append_left_inj, String.append_right_inj,
        String.empty_append] at hx
      obtain rfl := RunError.eq_of_message hx
      exact ⟨p, rfl, hr⟩

/-- Such a name is among those for which the call behind the gate rejects the program. -/
theorem rejection_of_reported {x : String} (h : run arguments read stdin n = some report)
    (hx : report.stderr = "Runtime error: " ++ (RunError.unbound x).message ++ "\n") :
    ∃ p, Stmt.parseFile text = .ok p ∧ x ∈ p.analyze.exposed ∧
      ∀ m, run [file] read stdin m = some ⟨2, "", rejection p.analyze.exposed, none⟩ := by
  obtain ⟨p, hp, hr⟩ := run_of_reported hname hread ha h hx
  refine ⟨p, hp, Stmt.mem_exposed_of_run_unbound hr, fun m => ?_⟩
  have hs : p.analyze.isSafe = false := Bool.eq_false_iff.mpr fun hs => Stmt.run_ne_unbound hs hr
  rw [run_of_file hname hread, hp]
  exact Settings.reportChecked_of_rejected hs

end

/-- **What becomes of a file.**  A call on a file that can be read ends unless its program is safe
and diverges.  No error escapes from it, and exactly one thing happens: the program comes to its
end, or it is rejected, or an error is reported; printing the file then gives the same text, the
same verdict, the same error.

Without the gate a call is never refused with exit code 2, and on a safe program it is the same
call.  Where it reports an unbound name, the name is among those that the call behind the gate
lists when it rejects the program. -/
theorem run_file_exact {file text : String} {read : String → Except String String}
    (hname : file.toList.head? ≠ some '-') (hread : read file = .ok text) (stdin : String) :
    ((∃ n report, run [file] read stdin n = some report) ↔
      ∀ p, Stmt.parseFile text = .ok p → p.analyze.isSafe = true → ∃ n o, p.run n ∅ = some o) ∧
    (∀ n report, run [file] read stdin n = some report →
      report.escaped = none ∧ ∃ printing, printFile text n = some printing ∧
        ExactlyOne (Succeeds text n report printing) (Rejects text report printing)
          (Fails file text n report printing)) ∧
    ∀ arguments ∈ uncheckedCalls file,
      ((∃ n report, run arguments read stdin n = some report) ↔
        ∀ p, Stmt.parseFile text = .ok p → ∃ n o, p.run n ∅ = some o) ∧
      (∀ n report, run arguments read stdin n = some report →
        (report.escaped = none ∧ report.exit ≠ 2) ∧
        ∀ x, report.stderr = "Runtime error: " ++ (RunError.unbound x).message ++ "\n" →
          ∃ p, Stmt.parseFile text = .ok p ∧ x ∈ p.analyze.exposed ∧
            ∀ m, run [file] read stdin m = some ⟨2, "", rejection p.analyze.exposed, none⟩) ∧
      ∀ p, Stmt.parseFile text = .ok p → p.analyze.isSafe = true →
        ∀ n, run arguments read stdin n = run [file] read stdin n := by
  refine ⟨exists_run_iff hname hread, fun n report h => ?_, fun arguments ha => ⟨?_, ?_, ?_⟩⟩
  · obtain ⟨hescaped, printing, hprint, hor⟩ := outcome_of_run hname hread h
    exact ⟨hescaped, printing, hprint, exactlyOne_of_or hor⟩
  · exact exists_run_unchecked_iff hname hread ha
  · intro n report h
    exact ⟨exit_of_run_unchecked hname hread ha h,
      fun x hx => rejection_of_reported hname hread ha h hx⟩
  · intro p hp hs n
    exact run_unchecked_of_safe hname hread ha hp hs

/-- Three programs can be read: one copies `X`, on two lines, one computes a square, and one divides
by zero. -/
def readShelf (file : String) : Except String String :=
  if file = "copy.imp" then .ok "skip;\r\nY := X"
  else if file = "square.imp" then .ok "X := 3; Y := X * X"
  else if file = "share.imp" then .ok "Y := 7 / 0"
  else .error "No such file or directory"

def squareOfThree : Stmt :=
  .seq (.assign "X" (.lit (.int 3))) (.assign "Y" (.bin .times (.var "X") (.var "X")))

def shareOfSeven : Stmt := .assign "Y" (.bin .divide (.lit (.int 7)) (.lit (.int 0)))

theorem parseFile_copy : Stmt.parseFile "skip;\r\nY := X" =
    .ok (.seq .skip (.assign "Y" (.var "X"))) := by
  have hlines : String.ofList (unifyNewlines "skip;\r\nY := X".toList) = "skip;\nY := X" := by
    decide
  have htokens : TokenStream.ofString "skip;\nY := X" =
      .token (.keyword .skipWord) 0 1 (.token .semi 4 1 (.token (.var "Y") 6 2
        (.token .assign 8 2 (.token (.var "X") 11 2 (.finish 12 2))))) := by
    decide +kernel
  rw [Stmt.parseFile, hlines, Stmt.parse, htokens]
  rfl

theorem parseFile_square : Stmt.parseFile "X := 3; Y := X * X" = .ok squareOfThree := by
  have hlines : String.ofList (unifyNewlines "X := 3; Y := X * X".toList) =
      "X := 3; Y := X * X" := by
    decide
  have htokens : TokenStream.ofString "X := 3; Y := X * X" =
      .token (.var "X") 0 1 (.token .assign 2 1 (.token (.number 3) 5 1 (.token .semi 6 1
        (.token (.var "Y") 8 1 (.token .assign 10 1 (.token (.var "X") 13 1
          (.token (.op .times) 15 1 (.token (.var "X") 17 1 (.finish 18 1))))))))) := by
    decide +kernel
  rw [Stmt.parseFile, hlines, Stmt.parse, htokens]
  rfl

theorem parseFile_share : Stmt.parseFile "Y := 7 / 0" = .ok shareOfSeven := by
  have hlines : String.ofList (unifyNewlines "Y := 7 / 0".toList) = "Y := 7 / 0" := by decide
  have htokens : TokenStream.ofString "Y := 7 / 0" =
      .token (.var "Y") 0 1 (.token .assign 2 1 (.token (.number 7) 5 1
        (.token (.op .divide) 7 1 (.token (.number 0) 9 1 (.finish 10 1))))) := by
    decide +kernel
  rw [Stmt.parseFile, hlines, Stmt.parse, htokens]
  rfl

/-- The call on `copy.imp` rejects the program; without the gate it is run, and the name it reports
as unbound is the one that the rejection lists.  The call on `square.imp` succeeds and prints the
store, and the call on `share.imp` fails. -/
theorem run_file_exact_copy :
    (run ["copy.imp", "--unchecked"] readShelf "" 3 =
        some ⟨1, "", "Runtime error: variable 'X' read before assignment\n", none⟩ ∧
      (∀ m, run ["copy.imp"] readShelf "" m =
        some ⟨2, "", "Program rejected: may read before assignment: X\n", none⟩) ∧
      ∃ printing, printFile "skip;\r\nY := X" 0 = some printing ∧
        Rejects "skip;\r\nY := X"
          ⟨2, "", "Program rejected: may read before assignment: X\n", none⟩ printing) ∧
    (run ["square.imp"] readShelf "" 3 =
        some ⟨0, "Output Store:\n\x7bX: 3, Y: 9\x7d\n", "", none⟩ ∧
      ∃ printing, printFile "X := 3; Y := X * X" 3 = some printing ∧
        Succeeds "X := 3; Y := X * X" 3
          ⟨0, "Output Store:\n\x7bX: 3, Y: 9\x7d\n", "", none⟩ printing) ∧
    run ["share.imp"] readShelf "" 1 = some ⟨1, "",
        "Runtime error: division by zero in '7 / 0' while running 'Y := 7 / 0'\n", none⟩ ∧
      ∃ printing, printFile "Y := 7 / 0" 1 = some printing ∧
        Fails "share.imp" "Y := 7 / 0" 1 ⟨1, "",
          "Runtime error: division by zero in '7 / 0' while running 'Y := 7 / 0'\n", none⟩
          printing := by
  refine ⟨?_, ?_, ?_⟩
  · have hname : "copy.imp".toList.head? ≠ some '-' := by decide
    have hread : readShelf "copy.imp" = .ok "skip;\r\nY := X" := rfl
    have hcall : ["copy.imp", "--unchecked"] ∈ uncheckedCalls "copy.imp" := by decide
    obtain ⟨-, hone, hunchecked⟩ := run_file_exact hname hread ""
    obtain ⟨-, hreported, -⟩ := hunchecked _ hcall
    have hrun : run ["copy.imp", "--unchecked"] readShelf "" 3 =
        some ⟨1, "", "Runtime error: variable 'X' read before assignment\n", none⟩ := by
      rw [run_of_file_unchecked hname hread hcall, parseFile_copy]
      decide +kernel
    obtain ⟨p, hp, -, hrejected⟩ := (hreported 3 _ hrun).2 "X" (by decide)
    rw [parseFile_copy] at hp
    cases hp
    have hnames : rejection (Stmt.seq .skip (.assign "Y" (.var "X"))).analyze.exposed =
        "Program rejected: may read before assignment: X\n" := by
      decide +kernel
    rw [hnames] at hrejected
    obtain ⟨-, printing, hprint, hexactly⟩ := hone 0 _ (hrejected 0)
    exact ⟨hrun, hrejected, printing, hprint, (outcome_of_exit hexactly).2.1 rfl⟩
  · have hname : "square.imp".toList.head? ≠ some '-' := by decide
    have hread : readShelf "square.imp" = .ok "X := 3; Y := X * X" := rfl
    obtain ⟨-, hone, -⟩ := run_file_exact hname hread ""
    have hrun : run ["square.imp"] readShelf "" 3 =
        some ⟨0, "Output Store:\n\x7bX: 3, Y: 9\x7d\n", "", none⟩ := by
      rw [run_of_file hname hread, parseFile_square]
      decide +kernel
    obtain ⟨-, printing, hprint, hexactly⟩ := hone 3 _ hrun
    exact ⟨hrun, printing, hprint, (outcome_of_exit hexactly).1 rfl⟩
  · have hname : "share.imp".toList.head? ≠ some '-' := by decide
    have hread : readShelf "share.imp" = .ok "Y := 7 / 0" := rfl
    obtain ⟨-, hone, -⟩ := run_file_exact hname hread ""
    have hrun : run ["share.imp"] readShelf "" 1 = some ⟨1, "",
        "Runtime error: division by zero in '7 / 0' while running 'Y := 7 / 0'\n", none⟩ := by
      rw [run_of_file hname hread, parseFile_share]
      decide +kernel
    obtain ⟨-, printing, hprint, hexactly⟩ := hone 1 _ hrun
    exact ⟨hrun, printing, hprint, (outcome_of_exit hexactly).2.2 rfl⟩

end CommandLine

end WhileLang
