import WhileLang.Proofs.Run.Frame
import WhileLang.Proofs.Run.Reads

/-!
# What a failure blames

The parts of an expression are evaluated in one order, operands from left to right and then
their operation (`Expr.parts`).  `Expr.FirstRaises` says that one part is the first without a
value and raises an error by itself: it is a name without a binding, or an operation that gives
its operands no value.  `Expr.eval_eq_error_iff` says that evaluation comes to an error exactly
if this is so, with the error of this part.

A run stops at the first part of the expression of some statement that it reaches.  So the
operation in a failure stands in the expression of the statement in the failure, and this
statement stands in the program (`Stmt.run_blames`); no operation or statement around them can
take their place.
-/

namespace WhileLang

/-! ### The first part without a value -/

namespace Expr

/-- The parts of an expression in the order in which they are evaluated. -/
def parts : Expr → List Expr
  | .var name => [.var name]
  | .lit value => [.lit value]
  | .bin op left right => left.parts ++ right.parts ++ [.bin op left right]

/-- The expression raises the error by itself: whatever its operands are, they have values. -/
inductive Raises (st : Store) : Expr → RunError → Prop
  | unbound {name : String} (h : st.lookup name = .error (.unbound name)) :
      Raises st (.var name) (.unbound name)
  | failed {op : Operator} {left right : Expr} {a b : Value} {cause : OperandError}
      (hl : left.eval st = .ok a) (hr : right.eval st = .ok b)
      (ho : op.apply a b = .error cause) :
      Raises st (.bin op left right) (.failed ⟨cause, .bin op left right, none⟩)

/-- The part is the first one of the expression without a value, and it raises the error. -/
def FirstRaises (e : Expr) (st : Store) (part : Expr) (r : RunError) : Prop :=
  ∃ before after, e.parts = before ++ part :: after ∧
    (∀ d ∈ before, ∃ value, d.eval st = .ok value) ∧ part.Raises st r

variable {st : Store} {e part : Expr} {r : RunError}

theorem Raises.eval_eq (h : part.Raises st r) : part.eval st = .error r := by
  cases h with
  | unbound h => exact h
  | failed hl hr ho => exact eval_bin_error.mpr (Or.inr ⟨_, hl, Or.inr ⟨_, _, hr, ho, rfl⟩⟩)

theorem eval_bin_ok {op : Operator} {left right : Expr} {value : Value}
    (h : (bin op left right).eval st = .ok value) :
    (∃ a, left.eval st = .ok a) ∧ ∃ b, right.eval st = .ok b := by
  cases hl : left.eval st with
  | error r =>
    rw [eval_bin_error.mpr (Or.inl hl)] at h
    cases h
  | ok a =>
    cases hr : right.eval st with
    | error r =>
      rw [eval_bin_error.mpr (Or.inr ⟨a, hl, Or.inl hr⟩)] at h
      cases h
    | ok b => exact ⟨⟨a, rfl⟩, b, rfl⟩

theorem exists_eval_of_mem_parts {value : Value} (h : e.eval st = .ok value) :
    ∀ d ∈ e.parts, ∃ w, d.eval st = .ok w := by
  induction e generalizing value with
  | var name => exact List.forall_mem_singleton.mpr ⟨value, h⟩
  | lit v => exact List.forall_mem_singleton.mpr ⟨value, h⟩
  | bin op left right ihl ihr =>
    obtain ⟨⟨a, hl⟩, b, hr⟩ := eval_bin_ok h
    intro d hd
    rcases List.mem_append.mp hd with hd | hd
    · rcases List.mem_append.mp hd with hd | hd
      · exact ihl hl d hd
      · exact ihr hr d hd
    · obtain rfl := List.mem_singleton.mp hd
      exact ⟨value, h⟩

/-- Evaluation that comes to an error has met a part that raises it, and none before. -/
theorem exists_firstRaises (h : e.eval st = .error r) : ∃ part, e.FirstRaises st part r := by
  induction e with
  | lit value => cases h
  | var name =>
    cases hl : st.lookup? name with
    | some value =>
      rw [eval, Store.lookup_of_some hl] at h
      cases h
    | none =>
      rw [eval, Store.lookup_of_none hl] at h
      cases h
      have hraises : (var name).Raises st (.unbound name) := .unbound (Store.lookup_of_none hl)
      exact ⟨.var name, [], [], rfl, List.forall_mem_nil _, hraises⟩
  | bin op left right ihl ihr =>
    rcases eval_bin_error.mp h with hl | ⟨a, hl, hr | ⟨b, cause, hr, ho, rfl⟩⟩
    · obtain ⟨part, before, after, hp, hb, hraises⟩ := ihl hl
      refine ⟨part, before, after ++ right.parts ++ [.bin op left right], ?_, hb, hraises⟩
      rw [parts, hp, List.append_assoc, List.append_assoc, List.append_assoc, List.cons_append]
    · obtain ⟨part, before, after, hp, hb, hraises⟩ := ihr hr
      refine ⟨part, left.parts ++ before, after ++ [.bin op left right], ?_, ?_, hraises⟩
      · rw [parts, hp, List.append_assoc, List.append_assoc, List.append_assoc, List.cons_append]
      · intro d hd
        rcases List.mem_append.mp hd with hd | hd
        · exact exists_eval_of_mem_parts hl d hd
        · exact hb d hd
    · refine ⟨.bin op left right, left.parts ++ right.parts, [], rfl, ?_, .failed hl hr ho⟩
      intro d hd
      rcases List.mem_append.mp hd with hd | hd
      · exact exists_eval_of_mem_parts hl d hd
      · exact exists_eval_of_mem_parts hr d hd

theorem FirstRaises.unique {part' : Expr} {r' : RunError} (h : e.FirstRaises st part r)
    (h' : e.FirstRaises st part' r') : part = part' := by
  obtain ⟨before, after, hp, hb, hraises⟩ := h
  obtain ⟨before', after', hp', hb', hraises'⟩ := h'
  have hne : ∀ {d : Expr} {s : RunError}, d.Raises st s → ¬∃ value, d.eval st = .ok value := by
    rintro d s hd ⟨value, hv⟩
    rw [hd.eval_eq] at hv
    cases hv
  rw [hp] at hp'
  rcases List.append_eq_append_iff.mp hp' with ⟨more, hbefore, hrest⟩ | ⟨more, hbefore, hrest⟩
  · cases more with
    | nil => exact (List.cons.inj hrest).1
    | cons d more =>
      -- the first part would stand before the other one
      obtain rfl := (List.cons.inj hrest).1
      exact absurd (hb' part (by simp [hbefore])) (hne hraises)
  · cases more with
    | nil => exact (List.cons.inj hrest).1.symm
    | cons d more =>
      obtain rfl := (List.cons.inj hrest).1
      exact absurd (hb part' (by simp [hbefore])) (hne hraises')

/-- Evaluation comes to an error exactly if the first part without a value raises it. -/
theorem eval_eq_error_iff : e.eval st = .error r ↔ ∃ part, e.FirstRaises st part r := by
  constructor
  · exact exists_firstRaises
  · rintro ⟨part, hpart⟩
    obtain ⟨before, after, hp, hb, hraises⟩ := hpart
    cases he : e.eval st with
    | ok value =>
      obtain ⟨w, hw⟩ := exists_eval_of_mem_parts he part (by simp [hp])
      rw [hraises.eval_eq] at hw
      cases hw
    | error r' =>
      obtain ⟨part', hpart'⟩ := exists_firstRaises he
      obtain rfl := FirstRaises.unique ⟨before, after, hp, hb, hraises⟩ hpart'
      obtain ⟨_, _, _, _, hraises'⟩ := hpart'
      have heq := hraises'.eval_eq
      rw [hraises.eval_eq] at heq
      cases heq
      rfl

/-- A failure in an expression is that of the operation it blames, and names no statement. -/
theorem eval_eq_failed_iff {f : Failure} :
    e.eval st = .error (.failed f) ↔ f.stmt = none ∧ e.FirstRaises st f.blamed (.failed f) := by
  rw [eval_eq_error_iff]
  constructor
  · rintro ⟨part, before, after, hp, hb, hraises⟩
    cases hraises with
    | failed hl hr ho => exact ⟨rfl, before, after, hp, hb, .failed hl hr ho⟩
  · rintro ⟨-, hfirst⟩
    exact ⟨f.blamed, hfirst⟩

end Expr

/-! ### Statements and runs -/

namespace Stmt

theorem isSeq_eq_false_of_subject {s : Stmt} {expr : Expr} (h : s.subject? = some expr) :
    s.isSeq = false := by
  cases s with
  | seq => cases h
  | _ => rfl

/-- A failure in the expression of a statement is that of the expression, with the statement. -/
theorem eval_eq_failed {s : Stmt} {st : Store} {e : Expr} {f : Failure}
    (h : s.eval st e = .error (.failed f)) :
    f.stmt = some s ∧ e.eval st = .error (.failed { f with stmt := none }) := by
  rw [eval] at h
  cases he : e.eval st with
  | ok value =>
    rw [he] at h
    cases h
  | error r =>
    rw [he] at h
    cases r with
    | unbound x => cases h
    | failed g =>
      obtain ⟨hnone, -⟩ := Expr.eval_eq_failed_iff.mp he
      obtain ⟨cause, blamed, stmt⟩ := g
      cases hnone
      cases h
      exact ⟨rfl, rfl⟩

/-- **A failure blames the first operation that fails.**  The statement in a failure is an
assignment, a branch or a loop that stands in the program.  The run reached it with some
bindings made, each of a name that the program assigns; in that store the operation in the
failure is the first part of the statement's own expression without a value, its operands have
values, and it fails on them for the cause in the failure.  The expression by itself fails at
the same operation and names no statement.  A run that meets an unbound name stops with the
error of the look-up, as it is. -/
theorem run_blames (s : Stmt) (st : Store) :
    (∀ n f, s.run n st = some (.stopped (.failed f)) →
      ∃ t expr pending made, f.stmt = some t ∧ t.Within s ∧ t.isSeq = false ∧
        t.subject? = some expr ∧ Reaches [s] st (t :: pending) (st.prepend made) ∧
        (∀ b ∈ made, s.Assigns b.1) ∧
        expr.eval (st.prepend made) = .error (.failed { f with stmt := none }) ∧
        expr.FirstRaises (st.prepend made) f.blamed (.failed { f with stmt := none })) ∧
    (∀ n x, s.run n st = some (.stopped (.unbound x)) →
      ∃ t expr pending made, t.Within s ∧ t.subject? = some expr ∧
        Reaches [s] st (t :: pending) (st.prepend made) ∧
        (st.prepend made).lookup x = .error (.unbound x) ∧
        expr.FirstRaises (st.prepend made) (.var x) (.unbound x)) ∧
    ∀ (e : Expr) (f : Failure), e.eval st = .error (.failed f) ↔
      f.stmt = none ∧ e.FirstRaises st f.blamed (.failed f) := by
  have hplace : ∀ n e, s.run n st = some (.stopped e) →
      ∃ t expr pending made, t.Within s ∧ t.subject? = some expr ∧
        Reaches [s] st (t :: pending) (st.prepend made) ∧ (∀ b ∈ made, s.Assigns b.1) ∧
        t.eval (st.prepend made) expr = .error e := by
    intro n e h
    obtain ⟨t, pending, st', hreaches, expr, ht, he⟩ := (runs_iff_run.mpr h).exists_stops
    obtain ⟨u, hu, hw⟩ := hreaches.within List.mem_cons_self
    obtain rfl := List.mem_singleton.mp hu
    obtain ⟨made, rfl, hmade⟩ := hreaches.exists_prepend
    refine ⟨t, expr, pending, made, hw, ht, hreaches, fun b hb => ?_, he⟩
    obtain ⟨u, hu, ha⟩ := hmade b hb
    obtain rfl := List.mem_singleton.mp hu
    exact ha
  refine ⟨fun n f h => ?_, fun n x h => ?_, fun e f => Expr.eval_eq_failed_iff⟩
  · obtain ⟨t, expr, pending, made, hw, ht, hreaches, hmade, he⟩ := hplace n _ h
    obtain ⟨hstmt, hfails⟩ := eval_eq_failed he
    exact ⟨t, expr, pending, made, hstmt, hw, isSeq_eq_false_of_subject ht, ht, hreaches, hmade,
      hfails, (Expr.eval_eq_failed_iff.mp hfails).2⟩
  · obtain ⟨t, expr, pending, made, hw, ht, hreaches, -, he⟩ := hplace n _ h
    obtain ⟨part, before, after, hp, hb, hraises⟩ :=
      Expr.eval_eq_error_iff.mp (eval_unbound_iff.mp he)
    cases hraises with
    | unbound hx =>
      exact ⟨t, expr, pending, made, hw, ht, hreaches, hx, before, after, hp, hb, .unbound hx⟩

end Stmt

def quotient : Expr := .bin .divide (.lit (.int 6)) (.bin .minus (.lit (.int 2)) (.var "I"))

def share : Stmt := .assign "Q" (.bin .plus (.lit (.int 1)) quotient)

/-- Keeps shares while `I` counts up to 2, if `B` says so. -/
def shares : Stmt :=
  .loop (.bin .le (.var "I") (.lit (.int 2)))
    (.seq (.branch (.var "B") share .skip)
      (.assign "I" (.bin .plus (.var "I") (.lit (.int 1)))))

/-- In the second turn of the loop the failure blames the quotient inside the sum, and the
assignment inside the branch; without `B` the run stops with the error of its look-up.  The sum
by itself fails at the quotient too. -/
theorem run_blames_shares :
    (∃ pending made, share.Within shares ∧
      Reaches [shares] ⟨[("I", .int 1), ("B", .bool true)]⟩ (share :: pending)
        (Store.prepend ⟨[("I", .int 1), ("B", .bool true)]⟩ made) ∧
      (∀ b ∈ made, shares.Assigns b.1) ∧
      Expr.FirstRaises (.bin .plus (.lit (.int 1)) quotient)
        (Store.prepend ⟨[("I", .int 1), ("B", .bool true)]⟩ made) quotient
        (.failed ⟨.divisionByZero, quotient, none⟩)) ∧
    (∃ made, (Store.prepend ⟨[("I", .int 1)]⟩ made).lookup "B" = .error (.unbound "B")) ∧
    Expr.FirstRaises (.bin .plus (.lit (.int 1)) quotient) ⟨[("I", .int 2)]⟩ quotient
      (.failed ⟨.divisionByZero, quotient, none⟩) := by
  obtain ⟨hfails, -, -⟩ := shares.run_blames ⟨[("I", .int 1), ("B", .bool true)]⟩
  obtain ⟨-, hmisses, -⟩ := shares.run_blames ⟨[("I", .int 1)]⟩
  obtain ⟨-, -, heval⟩ := shares.run_blames ⟨[("I", .int 2)]⟩
  refine ⟨?_, ?_, ((heval _ ⟨.divisionByZero, quotient, none⟩).mp rfl).2⟩
  · obtain ⟨t, expr, pending, made, ht, hw, -, hexpr, hreaches, hmade, -, hfirst⟩ :=
      hfails 20 ⟨.divisionByZero, quotient, some share⟩ rfl
    cases ht
    cases hexpr
    exact ⟨pending, made, hw, hreaches, hmade, hfirst⟩
  · obtain ⟨_, _, _, made, _, _, _, hlookup, _⟩ := hmisses 20 "B" rfl
    exact ⟨made, hlookup⟩

end WhileLang
