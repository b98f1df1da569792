import Mathlib.Tactic.Ring
import WhileLang.Interpret
import WhileLang.Proofs.Run.Total

/-!
# Adding up numbers

The program `summation n` counts `N` down from `n` to zero and adds to `S` what it counts.  Before
a turn of its loop with `k` numbers to come, `N` is `k` and `S` falls short of the sum by the sum
of these numbers (`Counting`).  A turn keeps this with one number less and makes two bindings, so
the loop comes to its end with the whole sum in `S`, whatever number it was started with; for a
number that is not positive there is no turn at all.
-/

namespace WhileLang

/-- Adds `N` to `S` and counts `N` down, until it is no longer positive. -/
def addUp : Stmt :=
  .loop (.bin .gt (.var "N") (.lit (.int 0)))
    (.chain [.assign "S" (.bin .plus (.var "S") (.var "N")),
      .assign "N" (.bin .minus (.var "N") (.lit (.int 1)))])

/-- The program `N := n; S := 0; while N > 0 do S := S + N; N := N - 1 endwhile`. -/
def summation (n : Int) : Stmt :=
  .chain [.assign "N" (.lit (.int n)), .assign "S" (.lit (.int 0)), addUp]

/-- The store between two turns of the loop when `k` numbers are still to be added. -/
structure Counting (n : Int) (k : Nat) (st : Store) : Prop where
  le_max : (k : Int) ≤ max n 0
  number : st.lookup? "N" = some (.int (min n 0 + k))
  sum : ∃ s : Int, st.lookup? "S" = some (.int s) ∧
    2 * s + k * (k + 1) = max n 0 * (max n 0 + 1)
  length : (st.bindings.length : Int) + 2 * k = 2 + 2 * max n 0
  keys : ∀ x, x ∈ st.keys ↔ x = "N" ∨ x = "S"

namespace Counting

variable {n : Int} {k : Nat} {st : Store}

theorem start (n : Int) :
    Counting n n.toNat (((∅ : Store).update "N" (.int n)).update "S" (.int 0)) := by
  have hmax : (n.toNat : Int) = max n 0 := by omega
  refine ⟨Int.le_of_eq hmax, ?_, ⟨0, ?_, ?_⟩, ?_, fun x => ?_⟩
  · have hn : min n 0 + (n.toNat : Int) = n := by omega
    rw [hn, Store.lookup?_update, if_neg (by decide), Store.lookup?_update, if_pos rfl]
  · rw [Store.lookup?_update, if_pos rfl]
  · rw [hmax]
    ring
  · rw [hmax]
    rfl
  · have hnone : ¬x ∈ (∅ : Store).keys := Store.not_mem_keys_iff.mpr (Store.lookup?_empty x)
    rw [Store.mem_keys_update, Store.mem_keys_update, or_iff_left hnone, or_comm]

/-- A turn adds the number that was the next one, and counts down by one. -/
theorem turn (h : Counting n (k + 1) st) {s : Int}
    (hsum : 2 * s + ((k + 1 : Nat) : Int) * ((k + 1 : Nat) + 1) = max n 0 * (max n 0 + 1)) :
    Counting n k ((st.update "S" (.int (s + (min n 0 + (k + 1 : Nat))))).update "N"
      (.int (min n 0 + (k + 1 : Nat) - 1))) := by
  obtain ⟨hle, -, -, hlength, hkeys⟩ := h
  have hmin : min n 0 = 0 := by omega
  rw [hmin, Int.zero_add]
  refine ⟨by omega, ?_, ⟨s + (k + 1 : Nat), ?_, ?_⟩, ?_, fun x => ?_⟩
  · have hk : ((k + 1 : Nat) : Int) - 1 = min n 0 + k := by omega
    rw [Store.lookup?_update, if_pos rfl, hk]
  · rw [Store.lookup?_update, if_neg (by decide), Store.lookup?_update, if_pos rfl]
  · rw [← hsum]
    push_cast
    ring
  · simp only [Store.bindings_update, List.length_cons]
    omega
  · rw [Store.mem_keys_update, Store.mem_keys_update, hkeys]
    constructor
    · rintro (h | h | h)
      · exact Or.inl h
      · exact Or.inr h
      · exact h
    · rintro (h | h)
      · exact Or.inl h
      · exact Or.inr (Or.inl h)

end Counting

/-- However many numbers are to come, the loop adds them all. -/
theorem addUp_establishes {n : Int} {k : Nat} {st : Store} (h : Counting n k st) :
    addUp.Establishes st (Counting n 0) := by
  refine .loop (I := Counting n) (fun k st h => ?_) h
  have hcond : (Expr.bin .gt (.var "N") (.lit (.int 0))).eval st =
      .ok (.bool (decide (min n 0 + (k : Int) > 0))) :=
    Expr.eval_bin_of_ok (Store.lookup_of_some h.number) rfl rfl
  have hle := h.le_max
  refine ⟨_, hcond, fun hholds => ?_, fun hholds => ?_⟩
  · have hpos : min n 0 + (k : Int) > 0 := of_decide_eq_true hholds
    obtain ⟨j, rfl⟩ : ∃ j, k = j + 1 := Nat.exists_eq_succ_of_ne_zero (by omega)
    obtain ⟨s, hs, hsum⟩ := h.sum
    have hnumber : (st.update "S" (.int (s + (min n 0 + (j + 1 : Nat))))).lookup? "N" =
        some (.int (min n 0 + (j + 1 : Nat))) := by
      rw [Store.lookup?_update, if_neg (by decide), h.number]
    refine .seq (.assign ?_ (.assign ?_ ⟨j, Nat.lt_succ_self j, h.turn hsum⟩))
    · exact Expr.eval_bin_of_ok (Store.lookup_of_some hs) (Store.lookup_of_some h.number) rfl
    · exact Expr.eval_bin_of_ok (Store.lookup_of_some hnumber) rfl rfl
  · have hzero : ¬min n 0 + (k : Int) > 0 := of_decide_eq_false hholds
    obtain rfl : k = 0 := by omega
    exact h

theorem summation_establishes (n : Int) : (summation n).Establishes ∅ (Counting n 0) :=
  .seq (.assign rfl (.seq (.assign rfl (addUp_establishes (.start n)))))

theorem isSafe_summation (n : Int) : (summation n).analyze.isSafe = true := rfl

/-- **The summation program is correct for every number.**  It passes the gate, comes to its end
without an error, and its final store binds `N` and `S` and nothing else: `S` to the sum of the
numbers from one to `n`, or to zero if there are none, and `N` to zero, or to `n` if that is
negative.  Each number makes two bindings, beside the first two. -/
theorem interpret_summation (n : Int) :
    ∃ st budget,
      (∀ more, (summation n).interpret (budget + more) = some (.ran (.finished st))) ∧
      (∀ x, x ∈ st.keys ↔ x = "N" ∨ x = "S") ∧
      st.lookup "S" = .ok (.int (max n 0 * (max n 0 + 1) / 2)) ∧
      st.lookup "N" = .ok (.int (min n 0)) ∧
      (st.bindings.length : Int) = 2 + 2 * max n 0 := by
  obtain ⟨st, budget, hrun, hle, hnumber, ⟨s, hs, hsum⟩, hlength, hkeys⟩ :=
    (summation_establishes n).exists_run
  have hzero : min n 0 + ((0 : Nat) : Int) = min n 0 := Int.add_zero _
  rw [hzero] at hnumber
  have hhalf : s = max n 0 * (max n 0 + 1) / 2 := by omega
  refine ⟨st, budget, fun more => ?_, hkeys, ?_, Store.lookup_of_some hnumber, by omega⟩
  · exact Stmt.interpret_eq_ran_iff.mpr ⟨isSafe_summation n, hrun more⟩
  · rw [← hhalf]
    exact Store.lookup_of_some hs

end WhileLang
