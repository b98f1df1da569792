import WhileLang.Proofs.Run.Agreement
import WhileLang.Proofs.Run.Ends
import WhileLang.Proofs.Run.Frame
import WhileLang.Proofs.Store.Items

/-!
# Independent statements

Two statements are independent when neither assigns a name that the other one assigns or
exposes.  What the other one does to the store is then out of sight: the new bindings are of
names that a statement does not expose, so the stores before and after them agree for it
(`Store.agreesOn_prepend`), and it makes the same bindings from both (`Ends.exists_made`).

So independent statements in either order make the same two lists of bindings, only one in
front of the other (`Stmt.Independent.swap`).  No name is in both lists, and therefore the
order cannot be told from the values of names (`Store.same_prepend_comm`).
-/

namespace WhileLang

/-! ### Bindings that cannot be seen -/

namespace Store

variable {names : NameSet} {made : List (String × Value)}

/-- Bindings of other names make no difference to some names. -/
theorem agreesOn_prepend (h : ∀ x ∈ names, ¬x ∈ made.map Prod.fst) (st : Store) :
    AgreesOn names st (st.prepend made) ∧ AgreesOn names (st.prepend made) st := by
  constructor
  · intro x hx value hv
    rw [lookup?_prepend_of_not_mem (h x hx)]
    exact hv
  · intro x hx value hv
    rw [lookup?_prepend_of_not_mem (h x hx)] at hv
    exact hv

theorem same_prepend_comm {made' : List (String × Value)}
    (h : ∀ x ∈ made.map Prod.fst, ¬x ∈ made'.map Prod.fst) (st : Store) :
    (st.prepend (made' ++ made)).same (st.prepend (made ++ made')) = true := by
  rw [same_iff_lookup?]
  intro x
  rw [← prepend_prepend, ← prepend_prepend]
  by_cases hx : x ∈ made.map Prod.fst
  · obtain ⟨value, hvalue⟩ := lookup?_prepend_of_mem hx
    rw [lookup?_prepend_of_not_mem (h x hx), hvalue, hvalue]
  · rw [lookup?_prepend_of_not_mem hx, lookup?_prepend, lookup?_prepend_of_not_mem hx,
      lookup?_prepend]

theorem prepend_inj {st : Store} {made' : List (String × Value)}
    (h : st.prepend made = st.prepend made') : made = made' :=
  List.append_cancel_right (congrArg bindings h)

end Store

/-! ### The bindings of a run -/

/-- A statement that comes to its end makes bindings of names that it assigns, and makes the same
ones from every store that agrees on what it exposes. -/
theorem Ends.exists_made {s : Stmt} {st st' : Store} (h : Ends [s] st (.finished st')) :
    ∃ made, st' = st.prepend made ∧ (∀ x ∈ made.map Prod.fst, x ∈ s.targets) ∧
      ∀ other, Store.AgreesOn s.analyze.exposed st other →
        Ends [s] other (.finished (other.prepend made)) := by
  obtain ⟨n, hr⟩ := h
  obtain ⟨made, rfl, hmade⟩ := hr.exists_prepend
  refine ⟨made, rfl, fun x hx => ?_, fun other hagrees => ?_⟩
  · obtain ⟨b, hb, rfl⟩ := List.mem_map.mp hx
    obtain ⟨t, ht, ha⟩ := hmade b hb
    obtain rfl := List.mem_singleton.mp ht
    exact Stmt.mem_targets_iff.mpr ha
  · obtain ⟨made', he, hr'⟩ := Stmt.run_finished_transfer (Stmt.runs_iff_run.mp hr) hagrees
    obtain rfl := Store.prepend_inj he
    exact Stmt.ends_iff_run.mpr ⟨n, hr'⟩

namespace Stmt

/-! ### Either order -/

/-- Neither statement assigns a name that the other one assigns or exposes. -/
structure Independent (a b : Stmt) : Prop where
  targets : ∀ x ∈ a.targets, ¬x ∈ b.targets
  left : ∀ x ∈ a.targets, ¬x ∈ b.analyze.exposed
  right : ∀ x ∈ b.targets, ¬x ∈ a.analyze.exposed

instance (a b : Stmt) : Decidable (a.Independent b) :=
  decidable_of_iff
    ((∀ x ∈ a.targets.names, ¬x ∈ b.targets) ∧ (∀ x ∈ a.targets.names, ¬x ∈ b.analyze.exposed) ∧
      ∀ x ∈ b.targets.names, ¬x ∈ a.analyze.exposed)
    ⟨fun ⟨ht, hl, hr⟩ => ⟨ht, hl, hr⟩, fun ⟨ht, hl, hr⟩ => ⟨ht, hl, hr⟩⟩

theorem Independent.symm {a b : Stmt} (h : a.Independent b) : b.Independent a :=
  ⟨fun x hb ha => h.targets x ha hb, h.right, h.left⟩

/-- Independent statements that come to their end in one order do so in the other one, with the
bindings of the two the other way round. -/
theorem Independent.swap {a b : Stmt} {st st' : Store} (h : a.Independent b)
    (hab : Ends [a, b] st (.finished st')) :
    ∃ madeA madeB, st' = st.prepend (madeB ++ madeA) ∧
      (∀ x ∈ madeA.map Prod.fst, ¬x ∈ madeB.map Prod.fst) ∧
      Ends [b, a] st (.finished (st.prepend (madeA ++ madeB))) := by
  obtain ⟨mid, ha, hb⟩ := ends_cons_finished_iff.mp hab
  obtain ⟨madeA, rfl, hmadeA, htransferA⟩ := ha.exists_made
  obtain ⟨madeB, rfl, hmadeB, htransferB⟩ := hb.exists_made
  -- each statement does not see what the other one has bound
  have hunseenA : ∀ x ∈ b.analyze.exposed, ¬x ∈ madeA.map Prod.fst :=
    fun x hx hm => h.left x (hmadeA x hm) hx
  have hunseenB : ∀ x ∈ a.analyze.exposed, ¬x ∈ madeB.map Prod.fst :=
    fun x hx hm => h.right x (hmadeB x hm) hx
  have hfirst := htransferB st (Store.agreesOn_prepend hunseenA st).2
  have hsecond := htransferA (st.prepend madeB) (Store.agreesOn_prepend hunseenB st).1
  refine ⟨madeA, madeB, st.prepend_prepend madeA madeB,
    fun x hA hB => h.targets x (hmadeA x hA) (hmadeB x hB), ?_⟩
  rw [← Store.prepend_prepend]
  exact ends_cons_finished_iff.mpr ⟨st.prepend madeB, hfirst, hsecond⟩

theorem ends_seq_iff_exists_run {a b : Stmt} {st st' : Store} :
    Ends [a, b] st (.finished st') ↔ ∃ n, (seq a b).run n st = some (.finished st') := by
  rw [← ends_seq_iff, ends_iff_run]

/-- **Independent statements commute.**  If neither of two statements assigns a name that the
other one assigns or exposes, they come to their end in one order if and only if they do in the
other order.  The final stores are then the same mapping, give every name the same value and
are printed alike; their bindings are those of the first store behind those of the two
statements, in the one order and in the other. -/
theorem seq_comm_of_independent {a b : Stmt} (h : a.Independent b) (st : Store) :
    ((∃ n st', (seq a b).run n st = some (.finished st')) ↔
      ∃ n st', (seq b a).run n st = some (.finished st')) ∧
    ∀ n m ab ba, (seq a b).run n st = some (.finished ab) →
      (seq b a).run m st = some (.finished ba) →
      ab.same ba = true ∧ (∀ x, ab.lookup? x = ba.lookup? x) ∧ ab.render = ba.render ∧
        ∃ madeA madeB, ab = st.prepend (madeB ++ madeA) ∧ ba = st.prepend (madeA ++ madeB) := by
  have hends : ∀ {a b : Stmt}, a.Independent b →
      (∃ n st', (seq a b).run n st = some (.finished st')) →
      ∃ n st', (seq b a).run n st = some (.finished st') := by
    rintro a b h ⟨n, st', hr⟩
    obtain ⟨madeA, madeB, -, -, hswapped⟩ := h.swap (ends_seq_iff_exists_run.mpr ⟨n, hr⟩)
    obtain ⟨m, hr'⟩ := ends_seq_iff_exists_run.mp hswapped
    exact ⟨m, _, hr'⟩
  refine ⟨⟨hends h, hends h.symm⟩, fun n m ab ba hab hba => ?_⟩
  obtain ⟨madeA, madeB, rfl, hdisjoint, hswapped⟩ := h.swap (ends_seq_iff_exists_run.mpr ⟨n, hab⟩)
  have hba' := ends_seq_iff_exists_run.mpr ⟨m, hba⟩
  cases hba'.unique hswapped
  have hsame := Store.same_prepend_comm hdisjoint st
  exact ⟨hsame, Store.same_iff_lookup?.mp hsame, Store.render_eq_of_same hsame,
    madeA, madeB, rfl, rfl⟩

end Stmt

/-- Adds to `S` the numbers from `X` down, each taken `K` times. -/
def total : Stmt :=
  .seq (.assign "T" (.var "X"))
    (.loop (.bin .gt (.var "T") (.lit (.int 0)))
      (.seq (.assign "S" (.bin .plus (.var "S") (.bin .times (.var "T") (.var "K"))))
        (.assign "T" (.bin .minus (.var "T") (.lit (.int 1))))))

/-- Keeps the square of `K` twice, if `K` is above 2. -/
def square : Stmt :=
  .branch (.bin .gt (.var "K") (.lit (.int 2)))
    (.seq (.assign "U" (.bin .times (.var "K") (.var "K"))) (.assign "V" (.var "U")))
    (.assign "V" (.lit (.int 0)))

def supplies : Store := ⟨[("X", .int 2), ("S", .int 0), ("K", .int 3)]⟩

/-- The loop reads its counter and the branch reads `U`, each after writing it, and both read
`K`.  The bindings come out in two orders, as one mapping. -/
theorem seq_comm_total_square :
    total.Independent square ∧
    ((∃ n st', (Stmt.seq total square).run n supplies = some (.finished st')) ↔
      ∃ n st', (Stmt.seq square total).run n supplies = some (.finished st')) ∧
    ∃ n m ab ba, (Stmt.seq total square).run n supplies = some (.finished ab) ∧
      (Stmt.seq square total).run m supplies = some (.finished ba) ∧
      ab.bindings ≠ ba.bindings ∧ ab.same ba = true ∧ ab.lookup? "V" = ba.lookup? "V" ∧
      ab.lookup? "V" = some (.int 9) ∧ ab.render = ba.render := by
  have hindependent : total.Independent square := by decide
  obtain ⟨hiff, hsame⟩ := Stmt.seq_comm_of_independent hindependent supplies
  refine ⟨hindependent, hiff, 30, 30, _, _, rfl, rfl, by decide +kernel, ?_⟩
  obtain ⟨h, hlookup, hrender, -⟩ := hsame 30 30 _ _ rfl rfl
  exact ⟨h, hlookup "V", by decide +kernel, hrender⟩

end WhileLang
