import WhileLang.Operator

/-!
# Operators on all values

An operator fails for two reasons only, and never for both at once: an operand is a boolean, or
both are integers and the operation is a division by zero (`apply_eq_error_iff`).  Otherwise the
operator alone decides the sort of the value (`kind_of_applyInt`).

The quotient of two integers is described without division, by what remains (`IsQuotient`): the
remainder is smaller than the divisor and has the sign of the dividend.  There is one such
quotient, whatever the signs are (`isQuotient_iff`).  It is computed from the absolute values,
and negated when exactly one of the integers is negative (`tdiv_eq_ite`).
-/

namespace WhileLang.Operator

/-! ### Failures and sorts -/

theorem applyInt_eq_error_iff {op : Operator} {m n : Int} {cause : OperandError} :
    op.applyInt m n = .error cause ↔ cause = .divisionByZero ∧ op = .divide ∧ n = 0 := by
  cases op with
  | divide =>
    rw [applyInt]
    by_cases hn : n = 0
    · simp [hn, eq_comm]
    · simp [hn]
  | _ => simp [applyInt]

/-- An operator fails on operands of the wrong sort, and else only on a division by zero. -/
theorem apply_eq_error_iff {op : Operator} {left right : Value} {cause : OperandError} :
    op.apply left right = .error cause ↔
      cause = .kinds op left.kind right.kind ∧ (left.kind = .boolean ∨ right.kind = .boolean) ∨
      cause = .divisionByZero ∧ left.kind = .integer ∧ op = .divide ∧ right = .int 0 := by
  cases left with
  | bool b => simp [apply, Value.kind, eq_comm]
  | int m =>
    cases right with
    | bool b => simp [apply, Value.kind, eq_comm]
    | int n => simp [apply, Value.kind, applyInt_eq_error_iff]

theorem exists_apply_eq_error_iff {op : Operator} {left right : Value} :
    (∃ cause, op.apply left right = .error cause) ↔
      left.kind = .boolean ∨ right.kind = .boolean ∨ op = .divide ∧ right = .int 0 := by
  simp only [apply_eq_error_iff]
  constructor
  · rintro ⟨cause, ⟨-, hl | hr⟩ | ⟨-, -, hzero⟩⟩
    · exact Or.inl hl
    · exact Or.inr (Or.inl hr)
    · exact Or.inr (Or.inr hzero)
  · intro h
    by_cases hb : left.kind = .boolean ∨ right.kind = .boolean
    · exact ⟨_, Or.inl ⟨rfl, hb⟩⟩
    · have hl : left.kind = .integer := by
        cases left with
        | int m => rfl
        | bool b => exact absurd (Or.inl rfl) hb
      rcases h with hl | hr | hzero
      · exact absurd (Or.inl hl) hb
      · exact absurd (Or.inr hr) hb
      · exact ⟨_, Or.inr ⟨rfl, hl, hzero⟩⟩

theorem kind_of_applyInt {op : Operator} {m n : Int} {value : Value}
    (h : op.applyInt m n = .ok value) :
    value.kind = if op ∈ [plus, minus, times, divide] then .integer else .boolean := by
  cases op with
  | divide =>
    rw [applyInt] at h
    split at h
    · cases h
    · cases h
      rfl
  | _ => cases h; rfl

theorem kind_of_apply {op : Operator} {left right value : Value}
    (h : op.apply left right = .ok value) :
    value.kind = if op ∈ [plus, minus, times, divide] then .integer else .boolean := by
  cases left with
  | bool b => cases h
  | int m =>
    cases right with
    | bool b => cases h
    | int n => exact kind_of_applyInt h

/-! ### Quotients -/

/-- Dividing `m` by `n` without a fraction gives `q`: what remains is smaller than `n`, and is zero
or has the sign of `m`. -/
def IsQuotient (m n q : Int) : Prop :=
  ∃ r : Int, m = q * n + r ∧ r.natAbs < n.natAbs ∧ (r = 0 ∨ r.sign = m.sign)

theorem isQuotient_tdiv (m : Int) {n : Int} (hn : n ≠ 0) : IsQuotient m n (m.tdiv n) := by
  refine ⟨m.tmod n, (Int.tdiv_mul_add_tmod m n).symm, ?_, ?_⟩
  · rw [Int.natAbs_tmod]
    exact Nat.mod_lt _ (Int.natAbs_pos.mpr hn)
  · rw [Int.sign_tmod]
    by_cases hd : n ∣ m
    · exact Or.inl (Int.tmod_eq_zero_of_dvd hd)
    · exact Or.inr (if_neg hd)

theorem nonneg_of_sign {m r : Int} (h : r = 0 ∨ r.sign = m.sign) (hm : 0 ≤ m) : 0 ≤ r := by
  rcases h with rfl | h
  · exact Int.le_refl 0
  · rw [← Int.sign_nonneg_iff, h]
    exact Int.sign_nonneg_iff.mpr hm

theorem nonpos_of_sign {m r : Int} (h : r = 0 ∨ r.sign = m.sign) (hm : m ≤ 0) : r ≤ 0 := by
  rcases h with rfl | h
  · exact Int.le_refl 0
  · rw [← Int.sign_nonpos_iff, h]
    exact Int.sign_nonpos_iff.mpr hm

/-- What two quotients leave is on the same side of zero, so it is less than `n` apart. -/
theorem IsQuotient.unique {m n q q' : Int} (h : IsQuotient m n q) (h' : IsQuotient m n q') :
    q = q' := by
  obtain ⟨r, hr, hlt, hsign⟩ := h
  obtain ⟨r', hr', hlt', hsign'⟩ := h'
  have hmul : (q - q') * n = r' - r := by
    rw [Int.sub_mul]
    omega
  have hapart : (r' - r).natAbs < n.natAbs := by
    rcases Int.le_total 0 m with hm | hm
    · have hpos := nonneg_of_sign hsign hm
      have hpos' := nonneg_of_sign hsign' hm
      omega
    · have hneg := nonpos_of_sign hsign hm
      have hneg' := nonpos_of_sign hsign' hm
      omega
  have hzero : r' - r = 0 :=
    Int.eq_zero_of_dvd_of_natAbs_lt_natAbs ⟨q - q', by rw [← hmul, Int.mul_comm]⟩ hapart
  rw [hzero] at hmul
  rcases Int.mul_eq_zero.mp hmul with hq | hn
  · omega
  · omega

theorem isQuotient_iff (m : Int) {n : Int} (hn : n ≠ 0) {q : Int} :
    IsQuotient m n q ↔ q = m.tdiv n := by
  constructor
  · intro h
    exact h.unique (isQuotient_tdiv m hn)
  · rintro rfl
    exact isQuotient_tdiv m hn

theorem tdiv_eq_ite (m n : Int) :
    m.tdiv n = if (m < 0 ↔ n < 0) then ((m.natAbs / n.natAbs : Nat) : Int)
      else -((m.natAbs / n.natAbs : Nat) : Int) := by
  have hneg (a : Nat) : Int.negSucc a < 0 := Int.negSucc_lt_zero a
  have hpos (a : Nat) : ¬Int.ofNat a < 0 := Int.not_lt.mpr (Int.natCast_nonneg a)
  cases m with
  | ofNat a =>
    cases n with
    | ofNat b => rw [if_pos (iff_of_false (hpos a) (hpos b))]; rfl
    | negSucc b => rw [if_neg fun h => hpos a (h.mpr (hneg b))]; rfl
  | negSucc a =>
    cases n with
    | ofNat b => rw [if_neg fun h => hpos b (h.mp (hneg a))]; rfl
    | negSucc b => rw [if_pos (iff_of_true (hneg a) (hneg b))]; rfl

theorem apply_divide (m : Int) {n : Int} (hn : n ≠ 0) :
    divide.apply (.int m) (.int n) = .ok (.int (m.tdiv n)) := if_neg hn

/-- **What operators make of any two values.**  An operator fails if and only if an operand is a
boolean or it divides by zero; where both are the case it is the sorts that it names.  Otherwise
it gives an integer or a boolean according to the operator.  The value of a division is the one
quotient that leaves zero or less than the divisor with the sign of the dividend, so it changes
its sign with either of the integers; it is the quotient of the absolute values, up to the sign. -/
theorem apply_exact :
    (∀ (op : Operator) (left right : Value),
      ((∃ cause, op.apply left right = .error cause) ↔
        left.kind = .boolean ∨ right.kind = .boolean ∨ op = .divide ∧ right = .int 0) ∧
      (∀ cause, op.apply left right = .error cause ↔
        cause = .kinds op left.kind right.kind ∧ (left.kind = .boolean ∨ right.kind = .boolean) ∨
        cause = .divisionByZero ∧ left.kind = .integer ∧ op = .divide ∧ right = .int 0) ∧
      ∀ value, op.apply left right = .ok value →
        value.kind = if op ∈ [plus, minus, times, divide] then .integer else .boolean) ∧
    ∀ m n : Int, n ≠ 0 → ∃ q, divide.apply (.int m) (.int n) = .ok (.int q) ∧
      (∀ q', IsQuotient m n q' ↔ q' = q) ∧
      (q = if (m < 0 ↔ n < 0) then ((m.natAbs / n.natAbs : Nat) : Int)
        else -((m.natAbs / n.natAbs : Nat) : Int)) ∧
      divide.apply (.int (-m)) (.int n) = .ok (.int (-q)) ∧
      divide.apply (.int m) (.int (-n)) = .ok (.int (-q)) := by
  refine ⟨fun op left right => ⟨exists_apply_eq_error_iff, fun cause => apply_eq_error_iff,
    fun value => kind_of_apply⟩, ?_⟩
  intro m n hn
  refine ⟨m.tdiv n, apply_divide m hn, fun q' => isQuotient_iff m hn, tdiv_eq_ite m n, ?_, ?_⟩
  · rw [apply_divide (-m) hn, Int.neg_tdiv]
  · rw [apply_divide m (by omega), Int.tdiv_neg]

/-- Seven divided by minus two is minus three, since one remains; a comparison gives a boolean. -/
theorem apply_exact_sevenHalves :
    (gt.apply (.int 7) (.int (-2)) = .ok (.bool true) ∧
      (Value.bool true).kind = if gt ∈ [plus, minus, times, divide] then .integer else .boolean) ∧
    (-2 : Int) ≠ 0 ∧ ∃ q, divide.apply (.int 7) (.int (-2)) = .ok (.int q) ∧
      (∀ q', IsQuotient 7 (-2) q' ↔ q' = q) ∧ q = -3 ∧
      divide.apply (.int (-7)) (.int (-2)) = .ok (.int (-q)) ∧
      divide.apply (.int 7) (.int (- -2)) = .ok (.int (-q)) := by
  refine ⟨⟨rfl, (apply_exact.1 gt (.int 7) (.int (-2))).2.2 _ rfl⟩, by decide, ?_⟩
  obtain ⟨q, hq, hunique, habs, hdividend, hdivisor⟩ := apply_exact.2 7 (-2) (by decide)
  exact ⟨q, hq, hunique, habs, hdividend, hdivisor⟩

end WhileLang.Operator
