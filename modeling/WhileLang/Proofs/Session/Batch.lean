import WhileLang.Proofs.Analysis.Chain
import WhileLang.Proofs.Printing.RoundTrip
import WhileLang.Proofs.Session.Invariant

/-!
# Sessions and programs

A program can be typed into a session piece by piece: its top-level statements are cut into
groups (`Piece`), and each group is one line.  `Stmt.interpret_eq_session` says that this comes
to the same as interpreting the program at once, up to the statement that fails, if one does.

The gate looks at the whole program before it starts, and counts a name as bound when the
statements in front define it.  The session looks at each line with the names that its store
binds at that moment.  `Store.Covers` is the invariant that joins the two: the store binds every
name that the statements to come expose.  It holds at the beginning since the gate exposes
nothing, and running a group keeps it (`Store.Covers.after`), because a run binds what the
analysis calls defined.
-/

namespace WhileLang

open Analysis

/-! ### Covering -/

/-- The store binds every name that the statements expose. -/
def Store.Covers (st : Store) (pending : List Stmt) : Prop :=
  ∀ x ∈ (ofAll pending).exposed, x ∈ st.keys

namespace Store.Covers

variable {st st' : Store} {first second : List Stmt}

theorem of_append (h : st.Covers (first ++ second)) : st.Covers first := by
  intro x hx
  refine h x ?_
  rw [ofAll_append, mem_exposed_andThen]
  exact Or.inl hx

/-- A run of the first statements binds what the others need. -/
theorem after (h : st.Covers (first ++ second)) (hr : Ends first st (.finished st')) :
    st'.Covers second := by
  intro x hx
  obtain ⟨_, hr⟩ := hr
  by_cases hd : x ∈ (ofAll first).defined
  · exact hr.mem_keys (Or.inr hd)
  · refine hr.mem_keys (Or.inl (h x ?_))
    rw [ofAll_append, mem_exposed_andThen]
    exact Or.inr ⟨hx, hd⟩

theorem gate (h : st.Covers first) :
    ((Stmt.chain first).exposedFrom st.keys).isEmpty = true := by
  refine NameSet.isEmpty_iff.mpr fun x hx => ?_
  obtain ⟨hx, hk⟩ := NameSet.mem_diff.mp hx
  rw [Stmt.analyze_chain] at hx
  exact hk (h x hx)

end Store.Covers

/-! ### Pieces -/

/-- Some statements, and a line that is read as their chain. -/
structure Piece where
  stmts : List Stmt
  line : String
  parse_line : Stmt.parse line = .ok (Stmt.chain stmts)

def Piece.printed (stmts : List Stmt) (hw : (Stmt.chain stmts).wellFormed = true)
    (hn : (Stmt.chain stmts).rightNest = Stmt.chain stmts) : Piece :=
  ⟨stmts, (Stmt.chain stmts).render, (Stmt.parse_render hw).trans (by rw [hn])⟩

/-- What the line of the piece does to a session when it is run to its end. -/
def Piece.change (piece : Piece) : Change := .ran (Stmt.chain piece.stmts)

/-- Each piece in order is accepted and run to its end, and the store is shown. -/
structure Store.Follows (st : Store) (pieces : List Piece) (replies : List Reply) : Prop where
  answered : ∃ n, st.answers n (pieces.map Piece.line) = some replies
  transcript : Transcript st (pieces.map Piece.line) replies (pieces.map Piece.change)
  shown : ∀ reply ∈ replies, reply.output = reply.store.render ++ "\n"

/-- A run of all statements follows the pieces, one by one. -/
theorem Store.exists_follows {st st' : Store} {pieces : List Piece}
    (hr : Ends (pieces.flatMap Piece.stmts) st (.finished st'))
    (hc : st.Covers (pieces.flatMap Piece.stmts)) :
    ∃ replies, st.Follows pieces replies ∧ st.afterAll replies = st' := by
  induction pieces generalizing st with
  | nil =>
    cases ends_nil_iff.mp hr
    exact ⟨[], ⟨⟨0, rfl⟩, .done _, fun _ h => by cases h⟩, rfl⟩
  | cons piece pieces ih =>
    obtain ⟨mid, hmid, hr⟩ := ends_append_finished_iff.mp hr
    obtain ⟨rest, hfollows, hafter⟩ := ih hr (hc.after hmid)
    have hp := Stmt.parse_strip piece.parse_line
    obtain ⟨n, hrun⟩ := Stmt.ends_iff_run.mp (ends_chain_iff.mpr hmid)
    have ha := answer_of_finished hp hc.of_append.gate hrun
    have hturn : st.Turns piece.line piece.change mid :=
      .ran hp hc.of_append.gate (ends_chain_iff.mpr hmid)
    obtain ⟨hescaped, hstop, -⟩ := turns_of_answer ha
    obtain ⟨m, hrest⟩ := hfollows.answered
    refine ⟨_ :: rest, ⟨exists_answers_cons ha hrest, ?_, ?_⟩, hafter⟩
    · exact .line hescaped hstop hturn (fun _ _ hturn' => hturn'.unique hturn) hfollows.transcript
    · exact List.forall_mem_cons.mpr ⟨rfl, hfollows.shown⟩

/-- A run that stops does so in one of the pieces, and comes through those before it. -/
theorem exists_piece_of_stopped {st : Store} {pieces : List Piece} {e : RunError}
    (h : Ends (pieces.flatMap Piece.stmts) st (.stopped e)) :
    ∃ before piece after mid, pieces = before ++ piece :: after ∧
      Ends (before.flatMap Piece.stmts) st (.finished mid) ∧
      Ends piece.stmts mid (.stopped e) := by
  induction pieces generalizing st with
  | nil => cases ends_nil_iff.mp h
  | cons piece pieces ih =>
    rcases ends_append_iff.mp h with ⟨mid, hpiece, hrest⟩ | ⟨e', he, hpiece⟩
    · obtain ⟨before, failing, after, last, rfl, hb, hs⟩ := ih hrest
      exact ⟨piece :: before, failing, after, last, rfl,
        ends_append_finished_iff.mpr ⟨mid, hpiece, hb⟩, hs⟩
    · cases he
      exact ⟨[], piece, pieces, st, rfl, .nil st, hpiece⟩

/-- **A program comes to the same at once and piece by piece.**  Let a program pass the gate and
come to an end, and let its top-level statements be typed into a fresh session in groups.  If the
program ends with a store, every line is run to its end and the session ends with that store.  If a
statement of the program fails, the lines before its own are run to their ends; its own line prints
the message, and the store of the session stays as it was before this line. -/
theorem Stmt.interpret_eq_session {p : Stmt} {n : Nat} {o : Outcome} {pieces : List Piece}
    (h : p.interpret n = some (.ran o)) (hpieces : pieces.flatMap Piece.stmts = p.flatten) :
    (∀ st, o = .finished st →
      ∃ replies, (∅ : Store).Follows pieces replies ∧ (∅ : Store).afterAll replies = st) ∧
    ∀ e, o = .stopped e →
      ∃ f before piece after first s rest st, e = .failed f ∧
        pieces = before ++ piece :: after ∧ piece.stmts = first ++ s :: rest ∧
        (∃ m, (chain (before.flatMap Piece.stmts ++ first)).run m ∅ = some (.finished st)) ∧
        (∃ m, s.run m st = some (.stopped (.failed f))) ∧
        ∃ replies, (∅ : Store).Follows before replies ∧
          ∃ m events, (∅ : Store).answers m (before.map Piece.line ++ [piece.line]) =
            some (replies ++ [⟨"Error: " ++ f.message ++ "\n", false,
              (∅ : Store).afterAll replies, events, none⟩]) := by
  obtain ⟨hsafe, hrun⟩ := interpret_eq_ran_iff.mp h
  have hends : Ends (pieces.flatMap Piece.stmts) ∅ o := by
    rw [hpieces, ends_flatten_iff]
    exact ends_iff_run.mpr ⟨n, hrun⟩
  have hcovers : (∅ : Store).Covers (pieces.flatMap Piece.stmts) := by
    intro x hx
    rw [hpieces, ofAll_flatten] at hx
    exact absurd hx (NameSet.isEmpty_iff.mp hsafe x)
  refine ⟨fun st ho => ?_, fun e ho => ?_⟩
  · subst ho
    exact Store.exists_follows hends hcovers
  · subst ho
    obtain ⟨before, piece, after, mid, rfl, hbefore, hpiece⟩ := exists_piece_of_stopped hends
    rw [List.flatMap_append, List.flatMap_cons] at hcovers
    obtain ⟨replies, hfollows, hafter⟩ := Store.exists_follows hbefore hcovers.of_append
    have hgate := (hcovers.after hbefore).of_append.gate
    have hchain := ends_chain_iff.mpr hpiece
    cases e with
    | unbound x => exact absurd hchain (not_ends_unbound hgate)
    | failed f =>
      obtain ⟨first, s, rest, st, hstmts, hfirst, hs⟩ := hpiece.exists_stopped
      have hall := ends_append_finished_iff.mpr ⟨mid, hbefore, hfirst⟩
      refine ⟨f, before, piece, after, first, s, rest, st, rfl, rfl, hstmts,
        ends_iff_run.mp (ends_chain_iff.mpr hall), ends_iff_run.mp hs, replies, hfollows, ?_⟩
      obtain ⟨k, hk⟩ := ends_iff_run.mp hchain
      have ha := Store.answer_of_failed (parse_strip piece.parse_line) hgate hk
      rw [← hafter] at ha
      obtain ⟨m, hm⟩ := hfollows.answered
      have hlast : ((∅ : Store).afterAll replies).answers k [piece.line] = _ :=
        Store.answers_cons_eq_some_iff.mpr ⟨_, [], ha, rfl, rfl⟩
      obtain ⟨j, hj⟩ := Store.exists_answers_append hm hlast
      exact ⟨j, _, hj⟩

def opening : Piece :=
  .printed [.assign "X" (.lit (.int 6)), .assign "Y" (.bin .minus (.var "X") (.lit (.int 1)))]
    (by decide) (by decide)

def squaring : Piece :=
  .printed [.assign "X" (.bin .times (.var "Y") (.var "Y"))] (by decide) (by decide)

def dividing : Piece :=
  .printed [.skip, .assign "Z" (.bin .divide (.var "X") (.lit (.int 0)))] (by decide) (by decide)

def dividingFailure : Failure :=
  ⟨.divisionByZero, .bin .divide (.var "X") (.lit (.int 0)),
    some (.assign "Z" (.bin .divide (.var "X") (.lit (.int 0))))⟩

/-- The first two pieces run to their ends on two lines, with the store of the whole.  With the
third piece behind them the whole fails, and so does a line of the session, in the same words. -/
theorem interpret_eq_session_squaring :
    (∃ replies, (∅ : Store).Follows [opening, squaring] replies ∧
      (∅ : Store).afterAll replies = ⟨[("X", .int 25), ("Y", .int 5), ("X", .int 6)]⟩) ∧
    ∃ before piece after replies m events,
      [opening, squaring, dividing] = before ++ piece :: after ∧
      (∅ : Store).Follows before replies ∧
      (∅ : Store).answers m (before.map Piece.line ++ [piece.line]) =
        some (replies ++ [⟨"Error: division by zero in 'X / 0' while running 'Z := X / 0'\n", false,
          (∅ : Store).afterAll replies, events, none⟩]) := by
  have hends : (Stmt.chain (opening.stmts ++ squaring.stmts)).interpret 9 =
      some (.ran (.finished ⟨[("X", .int 25), ("Y", .int 5), ("X", .int 6)]⟩)) := by
    decide +kernel
  have hfails : (Stmt.chain (opening.stmts ++ squaring.stmts ++ dividing.stmts)).interpret 9 =
      some (.ran (.stopped (.failed dividingFailure))) := by
    decide +kernel
  have hsplit : [opening, squaring].flatMap Piece.stmts =
      (Stmt.chain (opening.stmts ++ squaring.stmts)).flatten := by
    decide +kernel
  have hsplit' : [opening, squaring, dividing].flatMap Piece.stmts =
      (Stmt.chain (opening.stmts ++ squaring.stmts ++ dividing.stmts)).flatten := by
    decide +kernel
  have hmessage : "Error: " ++ dividingFailure.message ++ "\n" =
      "Error: division by zero in 'X / 0' while running 'Z := X / 0'\n" := by
    decide +kernel
  obtain ⟨hfollows, -⟩ := Stmt.interpret_eq_session hends hsplit
  obtain ⟨-, hstops⟩ := Stmt.interpret_eq_session hfails hsplit'
  refine ⟨hfollows _ rfl, ?_⟩
  obtain ⟨f, before, piece, after, _, _, _, _, he, hpieces, _, _, _, replies, hbefore, m, events,
    hanswer⟩ := hstops _ rfl
  cases he
  exact ⟨before, piece, after, replies, m, events, hpieces, hbefore, by rw [hanswer, hmessage]⟩

end WhileLang
