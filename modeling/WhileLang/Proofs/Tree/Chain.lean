import Mathlib.Data.List.Basic
import Mathlib.Logic.Function.Iterate
import WhileLang.Proofs.Tree.Equality

/-!
# Taking chains apart and putting them together

`Stmt.flatten` takes a chain apart with a list of what is still pending, and a turn may make that
list longer.  `Worklist` is the loop by itself.  What has been found, followed by what the pending
statements are still worth, stays the same in every turn (`Worklist.whole_turn`), and
`Worklist.remaining` gets smaller by one: twice the statements still to be found, less those
pending.  So the loop ends, after a number of turns that is known in advance, with the leaves of
the chain from left to right.

`Stmt.chain` puts the statements together again, nested to the right.  The links of a chain are
its leaves exactly if none of them is a chain (`Stmt.links_eq_flatten_iff`), and a statement is the
chain of its links.  Hence taking apart and putting together leaves exactly those statements as
they are that are nested to the right at the top level.
-/

namespace WhileLang

namespace Stmt

/-! ### Leaves -/

/-- The statements of a chain from left to right, whatever its nesting. -/
def leaves : Stmt → List Stmt
  | .seq first second => first.leaves ++ second.leaves
  | s => [s]

theorem leaves_of_not_isSeq {s : Stmt} (h : s.isSeq = false) : s.leaves = [s] := by
  cases s with
  | seq => cases h
  | _ => rfl

theorem flattenAll_eq_flatMap_leaves (pending : List Stmt) :
    flattenAll pending = pending.flatMap leaves := by
  induction pending using flattenAll_induction with
  | nil => rw [flattenAll, List.flatMap_nil]
  | seq first second pending ih =>
    rw [flattenAll_cons_seq, ih, List.flatMap_cons, List.flatMap_cons, List.flatMap_cons, leaves,
      List.append_assoc]
  | leaf s pending hs ih =>
    rw [flattenAll_cons_of_not_isSeq hs, ih, List.flatMap_cons, leaves_of_not_isSeq hs,
      List.singleton_append]

theorem flatten_eq_leaves (s : Stmt) : s.flatten = s.leaves := by
  rw [flatten, flattenAll_eq_flatMap_leaves, List.flatMap_singleton]

theorem flatten_ne_nil (s : Stmt) : s.flatten ≠ [] := by
  induction s with
  | seq first second ih _ =>
    rw [flatten_seq]
    exact List.append_ne_nil_of_left_ne_nil ih second.flatten
  | _ =>
    rw [flatten_of_not_isSeq rfl]
    exact List.cons_ne_nil _ []

theorem isSeq_of_mem_flatten {s t : Stmt} (h : t ∈ s.flatten) : t.isSeq = false := by
  induction s with
  | seq first second ih1 ih2 =>
    rw [flatten_seq] at h
    rcases List.mem_append.mp h with h | h
    · exact ih1 h
    · exact ih2 h
  | _ =>
    rw [flatten_of_not_isSeq rfl] at h
    rw [List.mem_singleton.mp h]
    rfl

theorem length_le_length_flattenAll (pending : List Stmt) :
    pending.length ≤ (flattenAll pending).length := by
  induction pending using flattenAll_induction with
  | nil => exact Nat.zero_le _
  | seq first second pending ih =>
    rw [flattenAll_cons_seq]
    simp only [List.length_cons] at ih ⊢
    omega
  | leaf s pending hs ih =>
    rw [flattenAll_cons_of_not_isSeq hs]
    simp only [List.length_cons]
    omega

end Stmt

/-! ### The loop -/

/-- A chain that is being taken apart: the statements found so far, and those still pending. -/
structure Worklist where
  found : List Stmt
  pending : List Stmt
  deriving DecidableEq

namespace Worklist

open Stmt

def start (s : Stmt) : Worklist := ⟨[], [s]⟩

/-- One turn of the loop.  The two statements of a chain take its place, any other statement has
been found, and nothing happens when nothing is pending. -/
def turn : Worklist → Worklist
  | ⟨found, []⟩ => ⟨found, []⟩
  | ⟨found, .seq first second :: pending⟩ => ⟨found, first :: second :: pending⟩
  | ⟨found, s :: pending⟩ => ⟨found ++ [s], pending⟩

theorem turn_cases (w : Worklist) :
    (w.pending = [] ∧ w.turn = w) ∨
    (∃ first second pending, w.pending = .seq first second :: pending ∧
      w.turn = ⟨w.found, first :: second :: pending⟩) ∨
    ∃ s pending, s.isSeq = false ∧ w.pending = s :: pending ∧
      w.turn = ⟨w.found ++ [s], pending⟩ := by
  obtain ⟨found, pending⟩ := w
  cases pending with
  | nil => exact Or.inl ⟨rfl, rfl⟩
  | cons s pending =>
    cases s with
    | seq first second => exact Or.inr (Or.inl ⟨first, second, pending, rfl, rfl⟩)
    | _ => exact Or.inr (Or.inr ⟨_, pending, rfl, rfl, rfl⟩)

/-- What will have been found in the end. -/
def whole (w : Worklist) : List Stmt := w.found ++ flattenAll w.pending

/-- How many turns are left.  A turn that takes a chain apart leaves one more pending, and a turn
that finds a statement leaves one fewer to find and one fewer pending. -/
def remaining (w : Worklist) : Nat := 2 * (flattenAll w.pending).length - w.pending.length

theorem remaining_eq_zero_iff {w : Worklist} : w.remaining = 0 ↔ w.pending = [] := by
  have hle := length_le_length_flattenAll w.pending
  rw [remaining, ← List.length_eq_zero_iff]
  constructor
  · intro h
    omega
  · intro h
    rw [List.length_eq_zero_iff.mp h, flattenAll]
    rfl

theorem whole_turn (w : Worklist) : w.turn.whole = w.whole := by
  rcases w.turn_cases with ⟨-, hturn⟩ | ⟨first, second, pending, hpending, hturn⟩ |
    ⟨s, pending, hs, hpending, hturn⟩
  · rw [hturn]
  · rw [hturn, whole, whole, hpending, flattenAll_cons_seq]
  · rw [hturn, whole, whole, hpending, flattenAll_cons_of_not_isSeq hs, List.append_assoc,
      List.singleton_append]

theorem remaining_turn (w : Worklist) : w.turn.remaining = w.remaining - 1 := by
  rcases w.turn_cases with ⟨hpending, hturn⟩ | ⟨first, second, pending, hpending, hturn⟩ |
    ⟨s, pending, hs, hpending, hturn⟩
  · rw [hturn, remaining_eq_zero_iff.mpr hpending]
  · rw [hturn, remaining, remaining, hpending, flattenAll_cons_seq]
    simp only [List.length_cons]
    omega
  · have hle := length_le_length_flattenAll pending
    rw [hturn, remaining, remaining, hpending, flattenAll_cons_of_not_isSeq hs]
    simp only [List.length_cons]
    omega

theorem whole_iterate_turn (w : Worklist) (n : Nat) : (turn^[n] w).whole = w.whole := by
  induction n with
  | zero => rfl
  | succ n ih => rw [Function.iterate_succ_apply', whole_turn, ih]

theorem remaining_iterate_turn (w : Worklist) (n : Nat) :
    (turn^[n] w).remaining = w.remaining - n := by
  induction n with
  | zero => rfl
  | succ n ih =>
    rw [Function.iterate_succ_apply', remaining_turn, ih]
    omega

theorem remaining_start (s : Stmt) : (start s).remaining = 2 * s.flatten.length - 1 := rfl

/-- The loop has ended as soon as there have been two turns for every leaf, less one. -/
theorem pending_iterate_turn_eq_nil_iff {s : Stmt} {n : Nat} :
    (turn^[n] (start s)).pending = [] ↔ 2 * s.flatten.length ≤ n + 1 := by
  rw [← remaining_eq_zero_iff, remaining_iterate_turn, remaining_start]
  omega

/-- When the loop has ended, it has found the top-level statements. -/
theorem iterate_turn_eq {s : Stmt} {n : Nat} (h : 2 * s.flatten.length ≤ n + 1) :
    turn^[n] (start s) = ⟨s.flatten, []⟩ := by
  have hpending := pending_iterate_turn_eq_nil_iff.mpr h
  have hwhole := whole_iterate_turn (start s) n
  have hfound : (turn^[n] (start s)).found = s.flatten := by
    rw [whole, hpending, flattenAll, List.append_nil] at hwhole
    exact hwhole
  rw [← hfound, ← hpending]

end Worklist

/-! ### Putting together -/

namespace Stmt

/-- No statement on the right spine is a chain, so that the chain at the top level is nested to
the right; inside branches and loops anything may stand. -/
def TopRightNested (s : Stmt) : Prop := ∀ t ∈ s.links, t.isSeq = false

instance (s : Stmt) : Decidable s.TopRightNested :=
  inferInstanceAs (Decidable (∀ t ∈ s.links, t.isSeq = false))

theorem chain_cons {ss : List Stmt} (h : ss ≠ []) (s : Stmt) :
    chain (s :: ss) = .seq s (chain ss) := by
  cases ss with
  | nil => exact absurd rfl h
  | cons => rfl

theorem flatten_chain {ss : List Stmt} (h : ss ≠ []) : (chain ss).flatten = ss.flatMap flatten := by
  induction ss using chain.induct with
  | case1 => exact absurd rfl h
  | case2 s => rw [chain, List.flatMap_singleton]
  | case3 s rest hne ih => rw [chain_cons hne, flatten_seq, ih hne, List.flatMap_cons]

theorem chain_links (s : Stmt) : chain s.links = s := by
  induction s with
  | seq first second _ ih => rw [links, chain_cons second.links_ne_nil, ih]
  | _ => rfl

theorem links_chain {ss : List Stmt} (hne : ss ≠ []) (h : ∀ t ∈ ss, t.isSeq = false) :
    (chain ss).links = ss := by
  induction ss using chain.induct with
  | case1 => exact absurd rfl hne
  | case2 s =>
    have hs := h s List.mem_cons_self
    cases s with
    | seq => cases hs
    | _ => rfl
  | case3 s rest hrest ih =>
    rw [chain_cons hrest, links, ih hrest fun t ht => h t (List.mem_cons_of_mem s ht)]

theorem flatMap_flatten_of_not_isSeq {ss : List Stmt} (h : ∀ t ∈ ss, t.isSeq = false) :
    ss.flatMap flatten = ss := by
  have hsingle : ∀ t ∈ ss, t.flatten = [t] := fun t ht => flatten_of_not_isSeq (h t ht)
  rw [List.flatMap_congr hsingle, List.flatMap_singleton']

theorem links_eq_flatten_iff {s : Stmt} : s.links = s.flatten ↔ s.TopRightNested := by
  constructor
  · intro h t ht
    rw [h] at ht
    exact isSeq_of_mem_flatten ht
  · intro h
    calc s.links = s.links.flatMap flatten := (flatMap_flatten_of_not_isSeq h).symm
      _ = (chain s.links).flatten := (flatten_chain s.links_ne_nil).symm
      _ = s.flatten := by rw [chain_links]

theorem links_chain_flatten (s : Stmt) : (chain s.flatten).links = s.flatten :=
  links_chain s.flatten_ne_nil fun _ ht => isSeq_of_mem_flatten ht

theorem flatten_chain_flatten (s : Stmt) : (chain s.flatten).flatten = s.flatten := by
  rw [flatten_chain s.flatten_ne_nil]
  exact flatMap_flatten_of_not_isSeq fun _ ht => isSeq_of_mem_flatten ht

theorem topRightNested_chain_flatten (s : Stmt) : (chain s.flatten).TopRightNested := by
  rw [← links_eq_flatten_iff, links_chain_flatten, flatten_chain_flatten]

theorem chain_flatten_eq_iff {s : Stmt} : chain s.flatten = s ↔ s.TopRightNested := by
  rw [← links_eq_flatten_iff, ← links_inj, links_chain_flatten]
  exact eq_comm

/-- **Taking apart and putting together normalizes a chain.**  The loop that takes a statement
apart ends after two turns for every leaf, less one, and not before; it has then found the leaves
from left to right, at least one and none of them a chain.  Two statements in order have the leaves
of the first one and then those of the second one, and statements that are put together have the
leaves of all of them in order.  The leaves of a statement put together have the same leaves and
are nested to the right at the top level, and they are the statement itself exactly if it was
nested so.  So doing both a second time changes nothing. -/
theorem flatten_normalizes (s : Stmt) :
    ((∀ n, (Worklist.turn^[n] (Worklist.start s)).pending = [] ↔ 2 * s.flatten.length ≤ n + 1) ∧
      ∀ n, Worklist.turn^[2 * s.flatten.length - 1 + n] (Worklist.start s) = ⟨s.flatten, []⟩) ∧
    (s.flatten = s.leaves ∧ s.flatten ≠ [] ∧ ∀ t ∈ s.flatten, t.isSeq = false) ∧
    (∀ a b, (seq a b).flatten = a.flatten ++ b.flatten) ∧
    (∀ t ts, (chain (t :: ts)).flatten = (t :: ts).flatMap flatten) ∧
    (chain s.flatten).flatten = s.flatten ∧
    (chain s.flatten).TopRightNested ∧
    (chain s.flatten = s ↔ s.TopRightNested) ∧
    chain (chain s.flatten).flatten = chain s.flatten := by
  have hlast : ∀ n, 2 * s.flatten.length ≤ 2 * s.flatten.length - 1 + n + 1 := by
    intro n
    omega
  refine ⟨⟨fun n => Worklist.pending_iterate_turn_eq_nil_iff,
      fun n => Worklist.iterate_turn_eq (hlast n)⟩,
    ⟨s.flatten_eq_leaves, s.flatten_ne_nil, fun t ht => isSeq_of_mem_flatten ht⟩,
    flatten_seq, fun t ts => flatten_chain (List.cons_ne_nil t ts), s.flatten_chain_flatten,
    s.topRightNested_chain_flatten, chain_flatten_eq_iff, ?_⟩
  rw [flatten_chain_flatten]

end Stmt

/-- A chain nested to the left around a branch, in which another chain is nested to the left. -/
def leftNested : Stmt :=
  .seq (.seq .skip (.branch (.var "B") (.seq (.seq .skip .skip) .skip) .skip)) .skip

/-- The three leaves take five turns and no fewer.  Put together they are another statement, and
the chain in the branch, which is one of them, is as it was. -/
theorem flatten_normalizes_leftNested :
    ((Worklist.turn^[4] (Worklist.start leftNested)).pending ≠ [] ∧
      Worklist.turn^[5] (Worklist.start leftNested) = ⟨leftNested.flatten, []⟩) ∧
    (Stmt.branch (.var "B") (.seq (.seq .skip .skip) .skip) .skip ∈ leftNested.flatten ∧
      (Stmt.branch (.var "B") (.seq (.seq .skip .skip) .skip) .skip).isSeq = false) ∧
    Stmt.chain leftNested.flatten ≠ leftNested := by
  obtain ⟨⟨hends, hloop⟩, ⟨hleaves, -, hnone⟩, -, -, -, -, hsame, -⟩ :=
    leftNested.flatten_normalizes
  have hlength : leftNested.flatten.length = 3 := by rw [hleaves]; rfl
  have hmem : Stmt.branch (.var "B") (.seq (.seq .skip .skip) .skip) .skip ∈
      leftNested.flatten := by
    rw [hleaves]
    decide
  rw [hlength] at hends hloop
  refine ⟨⟨fun h => ?_, hloop 0⟩, ⟨hmem, hnone _ hmem⟩, fun h => ?_⟩
  · exact absurd ((hends 4).mp h) (by decide)
  · exact absurd (hsame.mp h) (by decide)

end WhileLang
