import WhileLang.Eval

/-!
# What evaluation depends on

An expression looks at a store through the names it reads, `Expr.reads`.
`Expr.eval_congr` says that two stores with the same values of those names give it the same
value or the same error.  `Expr.eval_eq_or_unbound` needs less of the second store, the
values of the names that the first one binds, and then allows for one exception: evaluation
in the first store met a name that is not bound there.

`Expr.eval_unbound` says which names that can be, and `Expr.eval_bin_error` where an error of
an operation comes from.
-/

namespace WhileLang

namespace Store

theorem lookup_of_some {st : Store} {x : String} {value : Value}
    (h : st.lookup? x = some value) : st.lookup x = .ok value := by
  rw [lookup, h]

theorem lookup_of_none {st : Store} {x : String} (h : st.lookup? x = none) :
    st.lookup x = .error (.unbound x) := by
  rw [lookup, h]

/-- Wherever the first store binds one of the names, the second one has the same value. -/
def AgreesOn (names : NameSet) (a b : Store) : Prop :=
  ∀ x ∈ names, ∀ value, a.lookup? x = some value → b.lookup? x = some value

theorem AgreesOn.mono {names names' : NameSet} {a b : Store} (h : AgreesOn names a b)
    (hsub : ∀ x ∈ names', x ∈ names) : AgreesOn names' a b :=
  fun x hx => h x (hsub x hx)

theorem AgreesOn.lookup?_eq {names : NameSet} {a b : Store} (hab : AgreesOn names a b)
    (hba : AgreesOn names b a) {x : String} (hx : x ∈ names) : a.lookup? x = b.lookup? x := by
  cases ha : a.lookup? x with
  | some value => exact (hab x hx value ha).symm
  | none =>
    cases hb : b.lookup? x with
    | none => rfl
    | some value =>
      rw [hba x hx value hb] at ha
      cases ha

theorem AgreesOn.symm {names : NameSet} {a b : Store} (h : AgreesOn names a b)
    (hkeys : ∀ x ∈ names, x ∈ b.keys → x ∈ a.keys) : AgreesOn names b a := by
  intro x hx value hv
  have hb : x ∈ b.keys := by
    rw [← lookup?_isSome_iff_mem_keys, hv]
    rfl
  have ha : (a.lookup? x).isSome = true :=
    (lookup?_isSome_iff_mem_keys a x).mpr (hkeys x hx hb)
  obtain ⟨value', hv'⟩ := Option.isSome_iff_exists.mp ha
  rw [hv', ← h x hx value' hv', hv]

end Store

namespace Expr

/-- An operation fails in its left operand, or else in its right one, or else by itself. -/
theorem eval_bin_error {st : Store} {op : Operator} {left right : Expr} {e : RunError} :
    (bin op left right).eval st = .error e ↔
      left.eval st = .error e ∨
        ∃ a, left.eval st = .ok a ∧
          (right.eval st = .error e ∨
            ∃ b cause, right.eval st = .ok b ∧ op.apply a b = .error cause ∧
              e = .failed ⟨cause, bin op left right, none⟩) := by
  rw [eval]
  cases hl : left.eval st with
  | error e' => simp
  | ok a =>
    cases hr : right.eval st with
    | error e' => simp
    | ok b =>
      cases ho : op.apply a b with
      | error cause => simp [eq_comm, ho]
      | ok value => simp [ho]

theorem eval_bin_of_ok {st : Store} {op : Operator} {left right : Expr} {a b value : Value}
    (hl : left.eval st = .ok a) (hr : right.eval st = .ok b) (ho : op.apply a b = .ok value) :
    (bin op left right).eval st = .ok value := by
  rw [eval, hl, hr]
  simp only [ho]

/-- Evaluation stops at a name only if the expression reads it and the store does not bind it. -/
theorem eval_unbound {st : Store} {e : Expr} {x : String}
    (h : e.eval st = .error (.unbound x)) : x ∈ e.reads ∧ st.lookup? x = none := by
  induction e with
  | var name =>
    cases hl : st.lookup? name with
    | some value =>
      rw [eval, Store.lookup_of_some hl] at h
      cases h
    | none =>
      rw [eval, Store.lookup_of_none hl] at h
      cases h
      exact ⟨NameSet.mem_singleton.mpr rfl, hl⟩
  | lit value => cases h
  | bin op left right ihl ihr =>
    rw [reads, NameSet.mem_union]
    rcases eval_bin_error.mp h with hl | ⟨_, _, hr | ⟨_, _, _, _, hf⟩⟩
    · exact ⟨Or.inl (ihl hl).1, (ihl hl).2⟩
    · exact ⟨Or.inr (ihr hr).1, (ihr hr).2⟩
    · cases hf

theorem eval_congr {a b : Store} {e : Expr} (h : ∀ x ∈ e.reads, a.lookup? x = b.lookup? x) :
    e.eval a = e.eval b := by
  induction e with
  | var name =>
    rw [eval, eval, Store.lookup, Store.lookup, h name (NameSet.mem_singleton.mpr rfl)]
  | lit value => rfl
  | bin op left right ihl ihr =>
    have hl : left.eval a = left.eval b := ihl fun x hx => h x (NameSet.mem_union.mpr (.inl hx))
    have hr : right.eval a = right.eval b := ihr fun x hx => h x (NameSet.mem_union.mpr (.inr hx))
    rw [eval, eval, hl, hr]

/-- When the second store has the values that the first one binds, evaluation comes to the
same in both, unless it meets a name that the first one does not bind. -/
theorem eval_eq_or_unbound {a b : Store} {e : Expr} (h : Store.AgreesOn e.reads a b) :
    e.eval b = e.eval a ∨ ∃ x, e.eval a = .error (.unbound x) := by
  induction e with
  | var name =>
    cases hl : a.lookup? name with
    | some value =>
      have hb : b.lookup? name = some value := h name (NameSet.mem_singleton.mpr rfl) value hl
      left
      rw [eval, eval, Store.lookup_of_some hl, Store.lookup_of_some hb]
    | none => exact Or.inr ⟨name, Store.lookup_of_none hl⟩
  | lit value => exact Or.inl rfl
  | bin op left right ihl ihr =>
    have hl := ihl (h.mono fun x hx => NameSet.mem_union.mpr (.inl hx))
    have hr := ihr (h.mono fun x hx => NameSet.mem_union.mpr (.inr hx))
    rcases hl with hl | ⟨x, hx⟩
    · rcases hr with hr | ⟨x, hx⟩
      · left
        rw [eval, eval, hl, hr]
      · -- the left operand may fail first, and then it fails in both stores
        cases ha : left.eval a with
        | error e =>
          left
          rw [eval, eval, hl, ha]
        | ok value =>
          exact Or.inr ⟨x, eval_bin_error.mpr (Or.inr ⟨value, ha, Or.inl hx⟩)⟩
    · exact Or.inr ⟨x, eval_bin_error.mpr (Or.inl hx)⟩

end Expr

namespace Stmt

theorem eval_congr {s : Stmt} {a b : Store} {e : Expr} (h : e.eval a = e.eval b) :
    s.eval a e = s.eval b e := by
  rw [eval, eval, h]

theorem eval_of_ok {s : Stmt} {st : Store} {e : Expr} {value : Value} (h : e.eval st = .ok value) :
    s.eval st e = .ok value := by
  rw [eval, h]
  rfl

theorem eval_unbound_iff {s : Stmt} {st : Store} {e : Expr} {x : String} :
    s.eval st e = .error (.unbound x) ↔ e.eval st = .error (.unbound x) := by
  rw [eval]
  cases he : e.eval st with
  | ok value => constructor <;> (intro h; cases h)
  | error e =>
    cases e with
    | unbound y => exact Iff.rfl
    | failed f => constructor <;> (intro h; cases h)

end Stmt

end WhileLang
