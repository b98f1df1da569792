import WhileLang.Proofs.Session.Turn

/-!
# The store of a session

A session is a list of lines, and `Transcript` puts the answer and the change beside each: no
error escapes, only `EOF` ends the session, and each line does one thing and no other.
`Transcript.of_answers` says that every session has a transcript, whatever its lines.

What the session has run since the last `reset` is read off the changes (`programs`).
`Transcript.replay` is the invariant: these programs, run in order from the empty store, come
to the store of the session.  A line that fails or is rejected leaves no trace in it.
-/

namespace WhileLang

/-- The programs that count after a change, if these counted before. -/
def Change.after (before : List Stmt) : Change → List Stmt
  | .reset => []
  | .ran program => before ++ [program]
  | .kept => before

/-- The programs that were run since the last `reset`. -/
def programs (changes : List Change) : List Stmt := changes.foldl Change.after []

/-- The store of a session with the store `st` after some answers. -/
def Store.afterAll (st : Store) : List Reply → Store
  | [] => st
  | reply :: replies => reply.store.afterAll replies

/-- Every program that a session from the store `st` accepts comes to an end. -/
def Store.Terminating (st : Store) : List String → Prop
  | [] => True
  | line :: lines =>
    (∀ p, Stmt.parse (strip line) = .ok p → (p.exposedFrom st.keys).isEmpty = true →
      ∃ n o, p.run n st = some o) ∧
    ∀ change st', st.Turns line change st' → st'.Terminating lines

/-- The answers to the lines of a session, and what each line does to its store. -/
inductive Transcript : Store → List String → List Reply → List Change → Prop
  | done (st : Store) : Transcript st [] [] []
  | line {st : Store} {line : String} {lines : List String} {reply : Reply}
      {replies : List Reply} {change : Change} {changes : List Change}
      (hescaped : reply.escaped = none) (hstop : reply.stop = true ↔ strip line = "EOF")
      (hturn : st.Turns line change reply.store)
      (honly : ∀ change' st', st.Turns line change' st' → change' = change ∧ st' = reply.store)
      (h : Transcript reply.store lines replies changes) :
      Transcript st (line :: lines) (reply :: replies) (change :: changes)

namespace Store

theorem answers_cons_eq_some_iff {st : Store} {n : Nat} {line : String} {lines : List String}
    {replies : List Reply} :
    st.answers n (line :: lines) = some replies ↔
      ∃ reply rest, st.answer n line = some reply ∧ reply.store.answers n lines = some rest ∧
        replies = reply :: rest := by
  rw [answers]
  cases ha : st.answer n line with
  | none => simp
  | some reply =>
    cases hr : reply.store.answers n lines with
    | none => simp [hr]
    | some rest => simp [hr, eq_comm]

theorem answers_mono {st : Store} {n m : Nat} {lines : List String} {replies : List Reply}
    (h : st.answers n lines = some replies) (hnm : n ≤ m) : st.answers m lines = some replies := by
  induction lines generalizing st replies with
  | nil => exact h
  | cons line lines ih =>
    obtain ⟨reply, rest, ha, hr, rfl⟩ := answers_cons_eq_some_iff.mp h
    exact answers_cons_eq_some_iff.mpr ⟨reply, rest, answer_mono ha hnm, ih hr, rfl⟩

theorem exists_answers_cons {st : Store} {n m : Nat} {line : String} {lines : List String}
    {reply : Reply} {rest : List Reply} (ha : st.answer n line = some reply)
    (hr : reply.store.answers m lines = some rest) :
    ∃ k, st.answers k (line :: lines) = some (reply :: rest) :=
  ⟨max n m, answers_cons_eq_some_iff.mpr ⟨reply, rest, answer_mono ha (Nat.le_max_left n m),
    answers_mono hr (Nat.le_max_right n m), rfl⟩⟩

theorem exists_answers_append {st : Store} {n m : Nat} {lines more : List String}
    {replies rest : List Reply} (h : st.answers n lines = some replies)
    (h' : (st.afterAll replies).answers m more = some rest) :
    ∃ k, st.answers k (lines ++ more) = some (replies ++ rest) := by
  induction lines generalizing st replies with
  | nil =>
    cases h
    exact ⟨m, h'⟩
  | cons line lines ih =>
    obtain ⟨reply, later, ha, hr, rfl⟩ := answers_cons_eq_some_iff.mp h
    obtain ⟨_, hk⟩ := ih hr h'
    exact exists_answers_cons ha hk

/-- A session whose programs come to an end is answered within some budget. -/
theorem exists_answers {st : Store} {lines : List String} (h : st.Terminating lines) :
    ∃ n replies, st.answers n lines = some replies := by
  induction lines generalizing st with
  | nil => exact ⟨0, [], rfl⟩
  | cons line lines ih =>
    obtain ⟨hline, hlines⟩ := h
    obtain ⟨n, reply, ha⟩ := exists_answer fun p hp hg => by
      obtain ⟨m, o, hr⟩ := hline p hp hg
      exact ⟨o, Stmt.ends_iff_run.mpr ⟨m, hr⟩⟩
    obtain ⟨_, _, change, hturn⟩ := turns_of_answer ha
    obtain ⟨m, rest, hr⟩ := ih (hlines change reply.store hturn)
    obtain ⟨k, hk⟩ := exists_answers_cons ha hr
    exact ⟨k, _, hk⟩

/-- In a session that is answered every accepted program came to an end. -/
theorem Terminating.of_answers {st : Store} {n : Nat} {lines : List String} {replies : List Reply}
    (h : st.answers n lines = some replies) : st.Terminating lines := by
  induction lines generalizing st replies with
  | nil => exact trivial
  | cons line lines ih =>
    obtain ⟨reply, rest, ha, hr, rfl⟩ := answers_cons_eq_some_iff.mp h
    obtain ⟨_, _, change, hturn⟩ := turns_of_answer ha
    refine ⟨fun p hp hg => ?_, fun change' st' hturn' => ?_⟩
    · rw [answer_of_gate hp hg] at ha
      obtain ⟨o, ho, -⟩ := Option.map_eq_some_iff.mp ha
      exact ⟨n, o, ho⟩
    · rw [(hturn'.unique hturn).2]
      exact ih hr

theorem terminating_iff {st : Store} {lines : List String} :
    st.Terminating lines ↔ ∃ n replies, st.answers n lines = some replies := by
  constructor
  · exact exists_answers
  · rintro ⟨n, replies, h⟩
    exact .of_answers h

end Store

/-- A change keeps the invariant: what counts after it comes to the store after it. -/
theorem Change.ends_after {before : List Stmt} {st st' : Store} {line : String} {change : Change}
    (hb : Ends before ∅ (.finished st)) (h : st.Turns line change st') :
    Ends (change.after before) ∅ (.finished st') := by
  cases h with
  | reset => exact .nil ∅
  | ran _ _ hr => exact ends_append_finished_iff.mpr ⟨st, hb, hr⟩
  | kept => exact hb

namespace Transcript

theorem of_answers {st : Store} {n : Nat} {lines : List String} {replies : List Reply}
    (h : st.answers n lines = some replies) : ∃ changes, Transcript st lines replies changes := by
  induction lines generalizing st replies with
  | nil =>
    cases h
    exact ⟨[], .done st⟩
  | cons line lines ih =>
    obtain ⟨reply, rest, ha, hr, rfl⟩ := Store.answers_cons_eq_some_iff.mp h
    obtain ⟨hescaped, hstop, change, hturn⟩ := Store.turns_of_answer ha
    obtain ⟨changes, ht⟩ := ih hr
    exact ⟨change :: changes,
      .line hescaped hstop hturn (fun _ _ hturn' => hturn'.unique hturn) ht⟩

theorem take {st : Store} {lines : List String} {replies : List Reply} {changes : List Change}
    (h : Transcript st lines replies changes) (k : Nat) :
    Transcript st (lines.take k) (replies.take k) (changes.take k) := by
  induction h generalizing k with
  | done st =>
    rw [List.take_nil, List.take_nil, List.take_nil]
    exact .done st
  | @line st line lines reply replies change changes hescaped hstop hturn honly _ ih =>
    cases k with
    | zero => exact .done st
    | succ k => exact .line hescaped hstop hturn honly (ih k)

/-- What counts after a session comes to the store after it. -/
theorem replay {st : Store} {lines : List String} {replies : List Reply} {changes : List Change}
    {before : List Stmt} (h : Transcript st lines replies changes)
    (hb : Ends before ∅ (.finished st)) :
    Ends (changes.foldl Change.after before) ∅ (.finished (st.afterAll replies)) := by
  induction h generalizing before with
  | done => exact hb
  | line _ _ hturn _ _ ih => exact ih (Change.ends_after hb hturn)

end Transcript

/-- **The invariant of a session.**  A fresh session is answered within some budget exactly if the
programs it accepts come to an end.  Then no error escapes, exactly the lines that strip to `EOF`
end the session, and each line does exactly one thing to the store: a `reset` empties it, a program
that passes the gate and comes to its end replaces it by the store of its run, and every other line
keeps it.  So at any time the store is what the programs run since the last `reset` come to, as one
chain from the empty store. -/
theorem session_invariant (lines : List String) :
    ((∅ : Store).Terminating lines ↔ ∃ n replies, (∅ : Store).answers n lines = some replies) ∧
    ∀ n replies, (∅ : Store).answers n lines = some replies →
      ∃ changes, Transcript ∅ lines replies changes ∧
        ∀ k, ∃ m, (Stmt.chain (programs (changes.take k))).run m ∅ =
          some (.finished ((∅ : Store).afterAll (replies.take k))) := by
  refine ⟨Store.terminating_iff, fun n replies h => ?_⟩
  obtain ⟨changes, ht⟩ := Transcript.of_answers h
  refine ⟨changes, ht, fun k => ?_⟩
  have hends : Ends (programs (changes.take k)) ∅ (.finished _) :=
    (ht.take k).replay (Ends.nil ∅)
  exact Stmt.ends_iff_run.mp (ends_chain_iff.mpr hends)

/-- Some lines: a program, one that fails after an assignment, a `reset`, one that reads a
forgotten name, a program again, and the end. -/
def errand : List String :=
  ["X := 5", "Y := 1; Z := X / 0", "reset", "X := Y", "Y := 7", "EOF"]

def errandReplies : List Reply :=
  [⟨"\x7bX: 5\x7d\n", false, ⟨[("X", .int 5)]⟩, [.parsed 1], none⟩,
    ⟨"Error: division by zero in 'X / 0' while running 'Z := X / 0'\n", false,
      ⟨[("X", .int 5)]⟩, [.parsed 2], none⟩,
    ⟨"\x7b\x7d\n", false, ∅, [], none⟩,
    ⟨"Rejected: may read before assignment: Y\n", false, ∅, [.parsed 1], none⟩,
    ⟨"\x7bY: 7\x7d\n", false, ⟨[("Y", .int 7)]⟩, [.parsed 1], none⟩,
    ⟨"\n", true, ⟨[("Y", .int 7)]⟩, [], none⟩]

theorem answers_errand : (∅ : Store).answers 10 errand = some errandReplies := by decide +kernel

/-- These lines come to an end.  What they leave before and after the `reset` is what the programs
since the last `reset` do, the one that failed not among them. -/
theorem session_invariant_errand :
    (∅ : Store).Terminating errand ∧
      ∃ changes, Transcript ∅ errand errandReplies changes ∧
        (∃ m, (Stmt.chain (programs (changes.take 2))).run m ∅ =
          some (.finished ⟨[("X", .int 5)]⟩)) ∧
        ∃ m, (Stmt.chain (programs (changes.take 6))).run m ∅ =
          some (.finished ⟨[("Y", .int 7)]⟩) := by
  obtain ⟨hends, hinvariant⟩ := session_invariant errand
  obtain ⟨changes, ht, hreplay⟩ := hinvariant 10 errandReplies answers_errand
  exact ⟨hends.mpr ⟨10, errandReplies, answers_errand⟩, changes, ht, hreplay 2, hreplay 6⟩

end WhileLang
