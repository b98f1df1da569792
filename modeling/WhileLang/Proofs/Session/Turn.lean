import WhileLang.Proofs.Analysis.Soundness
import WhileLang.Proofs.Run.Ends
import WhileLang.Proofs.Session.Dispatch

/-!
# What a line does to a session

A line empties the store of the session, or runs a program from it, or keeps it (`Change`).
`Store.Turns` says when it does which and what the store is afterwards, without running
anything within a budget, and `Store.Keeps` lists the reasons for keeping the store.  No line
does two of these (`Store.Turns.unique`).

`Store.turns_of_answer` says that an answer does what `Turns` says.  Here the analysis is
needed: a program that passes the gate does not meet an unbound name, and so no error escapes.
An answer takes a budget only for a program that passes the gate (`Store.exists_answer`), and
a larger budget does not change it (`Store.answer_mono`).
-/

namespace WhileLang

/-- What a line does to the store of a session. -/
inductive Change where
  | reset
  | ran (program : Stmt)
  | kept

namespace Store

/-- The line leaves the store of the session as it is. -/
inductive Keeps (st : Store) (line : String) : Prop
  | blank (h : strip line = "")
  | help (h : (TypedLine.ofString line).command = some "help")
  | shown (h : (TypedLine.ofString line).command = some "store")
  | leave (h : strip line = "EOF")
  | parseError {e : ParseError} (hc : (TypedLine.ofString line).command ≠ some "reset")
      (hp : Stmt.parse (strip line) = .error e)
  | rejected {p : Stmt} (hp : Stmt.parse (strip line) = .ok p)
      (hg : (p.exposedFrom st.keys).isEmpty = false)
  | failed {p : Stmt} {f : Failure} (hp : Stmt.parse (strip line) = .ok p)
      (hg : (p.exposedFrom st.keys).isEmpty = true) (hr : Ends [p] st (.stopped (.failed f)))

/-- The line does this to the store of the session, which is the second store afterwards. -/
inductive Turns (st : Store) (line : String) : Change → Store → Prop
  | reset (hc : (TypedLine.ofString line).command = some "reset") : Turns st line .reset ∅
  | ran {p : Stmt} {st' : Store} (hp : Stmt.parse (strip line) = .ok p)
      (hg : (p.exposedFrom st.keys).isEmpty = true) (hr : Ends [p] st (.finished st')) :
      Turns st line (.ran p) st'
  | kept (h : st.Keeps line) : Turns st line .kept st

/-! ### No line does two things -/

theorem command_ne_reset_of_parse {line : String} {p : Stmt}
    (hp : Stmt.parse (strip line) = .ok p) : (TypedLine.ofString line).command ≠ some "reset" :=
  TypedLine.command_ne_reset (TypedLine.request_of_parse hp) fun h => by cases h

theorem Keeps.ne_reset {st : Store} {line : String} (h : st.Keeps line) :
    (TypedLine.ofString line).command ≠ some "reset" := by
  cases h with
  | blank h => exact TypedLine.command_ne_reset (TypedLine.request_eq_nothing_iff.mpr h) (by decide)
  | help h => rw [h]; decide
  | shown h => rw [h]; decide
  | leave h => exact TypedLine.command_ne_reset (TypedLine.request_eq_leave_iff.mpr h) (by decide)
  | parseError hc => exact hc
  | rejected hp => exact command_ne_reset_of_parse hp
  | failed hp => exact command_ne_reset_of_parse hp

theorem Keeps.not_ends {st st' : Store} {line : String} {p : Stmt} (h : st.Keeps line)
    (hp : Stmt.parse (strip line) = .ok p) (hg : (p.exposedFrom st.keys).isEmpty = true) :
    ¬Ends [p] st (.finished st') := by
  intro hr
  have hrequest := TypedLine.request_of_parse hp
  cases h with
  | blank h =>
    rw [TypedLine.request_eq_nothing_iff.mpr h] at hrequest
    cases hrequest
  | help h =>
    obtain ⟨topic, ht⟩ := TypedLine.exists_request_eq_help_iff.mpr h
    rw [ht] at hrequest
    cases hrequest
  | shown h =>
    rw [TypedLine.request_eq_showStore_iff.mpr h] at hrequest
    cases hrequest
  | leave h =>
    rw [TypedLine.request_eq_leave_iff.mpr h] at hrequest
    cases hrequest
  | parseError _ hp' =>
    rw [hp] at hp'
    cases hp'
  | rejected hp' hg' =>
    rw [hp] at hp'
    cases hp'
    rw [hg] at hg'
    cases hg'
  | failed hp' _ hr' =>
    rw [hp] at hp'
    cases hp'
    cases hr.unique hr'

theorem Turns.unique {st st₁ st₂ : Store} {line : String} {change₁ change₂ : Change}
    (h₁ : st.Turns line change₁ st₁) (h₂ : st.Turns line change₂ st₂) :
    change₁ = change₂ ∧ st₁ = st₂ := by
  cases h₁ with
  | reset hc =>
    cases h₂ with
    | reset => exact ⟨rfl, rfl⟩
    | ran hp => exact absurd hc (command_ne_reset_of_parse hp)
    | kept h => exact absurd hc h.ne_reset
  | ran hp hg hr =>
    cases h₂ with
    | reset hc => exact absurd hc (command_ne_reset_of_parse hp)
    | ran hp' _ hr' =>
      rw [hp] at hp'
      cases hp'
      cases hr.unique hr'
      exact ⟨rfl, rfl⟩
    | kept h => exact absurd hr (h.not_ends hp hg)
  | kept h =>
    cases h₂ with
    | reset hc => exact absurd hc h.ne_reset
    | ran hp hg hr => exact absurd hr (h.not_ends hp hg)
    | kept => exact ⟨rfl, rfl⟩

end Store

/-! ### Answers -/

/-- A program that passes the gate does not stop at an unbound name. -/
theorem Stmt.not_ends_unbound {p : Stmt} {st : Store} {x : String}
    (hg : (p.exposedFrom st.keys).isEmpty = true) : ¬Ends [p] st (.stopped (.unbound x)) := by
  rintro ⟨n, hr⟩
  obtain ⟨hx, hl⟩ := hr.unbound_mem_exposed
  rw [Analysis.ofAll_singleton] at hx
  exact NameSet.isEmpty_iff.mp hg x (NameSet.mem_diff.mpr ⟨hx, Store.not_mem_keys_iff.mpr hl⟩)

namespace Store

variable {st : Store} {n : Nat} {line : String} {p : Stmt}

theorem answerProgram_of_error {text : String} {e : ParseError}
    (hp : Stmt.parse text = .error e) :
    st.answerProgram n text = some ⟨"Parse error: " ++ e.message ++ "\n", false, st, [], none⟩ := by
  rw [answerProgram, hp]

theorem answerProgram_of_rejected {text : String} (hp : Stmt.parse text = .ok p)
    (hg : (p.exposedFrom st.keys).isEmpty = false) :
    st.answerProgram n text =
      some ⟨"Rejected: may read before assignment: " ++ (p.exposedFrom st.keys).listed ++ "\n",
        false, st, [.parsed p.flatten.length], none⟩ := by
  rw [answerProgram, hp]
  exact if_neg (by rw [hg]; exact Bool.false_ne_true)

theorem answer_of_gate (hp : Stmt.parse (strip line) = .ok p)
    (hg : (p.exposedFrom st.keys).isEmpty = true) :
    st.answer n line = (p.run n st).map fun
      | .finished st' => ⟨st'.render ++ "\n", false, st', [.parsed p.flatten.length], none⟩
      | .stopped (.failed f) =>
        ⟨"Error: " ++ f.message ++ "\n", false, st, [.parsed p.flatten.length], none⟩
      | .stopped (.unbound x) =>
        ⟨"", false, st, [.parsed p.flatten.length], some (.unbound x)⟩ := by
  rw [answer, TypedLine.request_of_parse hp]
  show st.answerProgram n (strip line) = _
  rw [answerProgram, hp]
  exact if_pos hg

theorem answer_of_finished {st' : Store} (hp : Stmt.parse (strip line) = .ok p)
    (hg : (p.exposedFrom st.keys).isEmpty = true) (hr : p.run n st = some (.finished st')) :
    st.answer n line =
      some ⟨st'.render ++ "\n", false, st', [.parsed p.flatten.length], none⟩ := by
  rw [answer_of_gate hp hg, hr]
  rfl

theorem answer_of_failed {f : Failure} (hp : Stmt.parse (strip line) = .ok p)
    (hg : (p.exposedFrom st.keys).isEmpty = true)
    (hr : p.run n st = some (.stopped (.failed f))) :
    st.answer n line =
      some ⟨"Error: " ++ f.message ++ "\n", false, st, [.parsed p.flatten.length], none⟩ := by
  rw [answer_of_gate hp hg, hr]
  rfl

/-- A line that is not a program, or one that does not pass the gate, is answered without a run,
and the answer does what the line does. -/
theorem answer_or_gate (st : Store) (line : String) :
    (∃ p, Stmt.parse (strip line) = .ok p ∧ (p.exposedFrom st.keys).isEmpty = true) ∨
      ∃ reply change, (∀ n, st.answer n line = some reply) ∧ reply.escaped = none ∧
        (reply.stop = true ↔ strip line = "EOF") ∧ st.Turns line change reply.store := by
  rw [← TypedLine.request_eq_leave_iff]
  unfold answer
  cases hreq : (TypedLine.ofString line).request with
  | nothing =>
    exact Or.inr ⟨_, _, fun _ => rfl, rfl, by simp,
      .kept (.blank (TypedLine.request_eq_nothing_iff.mp hreq))⟩
  | help topic =>
    exact Or.inr ⟨_, _, fun _ => rfl, rfl, by simp,
      .kept (.help (TypedLine.exists_request_eq_help_iff.mp ⟨topic, hreq⟩))⟩
  | showStore =>
    exact Or.inr ⟨_, _, fun _ => rfl, rfl, by simp,
      .kept (.shown (TypedLine.request_eq_showStore_iff.mp hreq))⟩
  | reset =>
    exact Or.inr ⟨_, _, fun _ => rfl, rfl, by simp,
      .reset (TypedLine.request_eq_reset_iff.mp hreq)⟩
  | leave =>
    exact Or.inr ⟨_, _, fun _ => rfl, rfl, by simp,
      .kept (.leave (TypedLine.request_eq_leave_iff.mp hreq))⟩
  | program text =>
    obtain rfl := TypedLine.eq_strip_of_request hreq
    cases hp : Stmt.parse (strip line) with
    | error e =>
      have hc := TypedLine.command_ne_reset hreq fun h => by cases h
      exact Or.inr ⟨_, _, fun _ => answerProgram_of_error hp, rfl, by simp,
        .kept (.parseError hc hp)⟩
    | ok p =>
      cases hg : (p.exposedFrom st.keys).isEmpty with
      | true => exact Or.inl ⟨p, rfl, hg⟩
      | false =>
        exact Or.inr ⟨_, _, fun _ => answerProgram_of_rejected hp hg, rfl, by simp,
          .kept (.rejected hp hg)⟩

/-- **What an answer does.**  No error escapes, only `EOF` ends the session, and the store of the
session turns as the line says. -/
theorem turns_of_answer {reply : Reply} (h : st.answer n line = some reply) :
    reply.escaped = none ∧ (reply.stop = true ↔ strip line = "EOF") ∧
      ∃ change, st.Turns line change reply.store := by
  rcases st.answer_or_gate line with ⟨p, hp, hg⟩ | ⟨reply', change, ha, hesc, hstop, hturn⟩
  · have hstop : ¬strip line = "EOF" := by
      rw [← TypedLine.request_eq_leave_iff, TypedLine.request_of_parse hp]
      exact fun h => by cases h
    cases hr : p.run n st with
    | none =>
      rw [answer_of_gate hp hg, hr] at h
      cases h
    | some o =>
      have hends : Ends [p] st o := ⟨n, Stmt.runs_iff_run.mpr hr⟩
      cases o with
      | finished st' =>
        rw [answer_of_finished hp hg hr] at h
        cases h
        exact ⟨rfl, by simpa using hstop, .ran p, .ran hp hg hends⟩
      | stopped e =>
        cases e with
        | unbound x => exact absurd hends (Stmt.not_ends_unbound hg)
        | failed f =>
          rw [answer_of_failed hp hg hr] at h
          cases h
          exact ⟨rfl, by simpa using hstop, .kept, .kept (.failed hp hg hends)⟩
  · rw [ha n] at h
    cases h
    exact ⟨hesc, hstop, change, hturn⟩

theorem exists_answer (h : ∀ p, Stmt.parse (strip line) = .ok p →
    (p.exposedFrom st.keys).isEmpty = true → ∃ o, Ends [p] st o) :
    ∃ n reply, st.answer n line = some reply := by
  rcases st.answer_or_gate line with ⟨p, hp, hg⟩ | ⟨reply, _, ha, _⟩
  · obtain ⟨o, n, hr⟩ := h p hp hg
    exact ⟨n, _, by rw [answer_of_gate hp hg, Stmt.runs_iff_run.mp hr]; rfl⟩
  · exact ⟨0, reply, ha 0⟩

theorem answer_mono {m : Nat} {reply : Reply} (h : st.answer n line = some reply) (hnm : n ≤ m) :
    st.answer m line = some reply := by
  rcases st.answer_or_gate line with ⟨p, hp, hg⟩ | ⟨_, _, ha, _⟩
  · rw [answer_of_gate hp hg] at h ⊢
    cases hr : p.run n st with
    | none =>
      rw [hr] at h
      cases h
    | some o =>
      rw [hr] at h
      rw [Stmt.run_mono hr hnm]
      exact h
  · rw [ha m, ← ha n]
    exact h

end Store

end WhileLang
