import WhileLang.Stmt

/-!
# Equality of statements along the spine

A program is a chain as long as the program itself.  `Stmt.same` compares two
statements without descending into a chain link by link: it lists the links of
both right spines and compares the lists.  Chains of the same statements that are
nested differently stay different.  `Stmt.hashCode` follows the spine in the same
way.
-/

namespace WhileLang

namespace Stmt

theorem nodesAll_links_le (s : Stmt) : nodesAll s.links ≤ s.nodes := by
  induction s with
  | seq a b _ ihb => simp only [links, nodesAll, nodes]; omega
  | skip => exact Nat.le_refl _
  | assign => exact Nat.le_refl _
  | branch => exact Nat.le_refl _
  | loop => exact Nat.le_refl _

mutual

/-- Whether two statements are the same, chains being compared by their links. -/
def same : Stmt → Stmt → Bool
  | .skip, .skip => true
  | .assign name expr, .assign name' expr' => name == name' && expr == expr'
  | .branch cond yes no, .branch cond' yes' no' => cond == cond' && same yes yes' && same no no'
  | .loop cond body, .loop cond' body' => cond == cond' && same body body'
  | .seq first second, .seq first' second' =>
    sameAll (first :: second.links) (first' :: second'.links)
  | _, _ => false
termination_by s => (s.nodes, 0)
decreasing_by
  all_goals apply Prod.Lex.left
  all_goals simp only [nodes, nodesAll]
  · omega
  · omega
  · omega
  · have := nodesAll_links_le second
    omega

def sameAll : List Stmt → List Stmt → Bool
  | [], [] => true
  | s :: rest, t :: rest' => same s t && sameAll rest rest'
  | _, _ => false
termination_by l => (nodesAll l, l.length + 1)
decreasing_by
  all_goals simp only [nodesAll, List.length_cons]
  · rcases Nat.eq_zero_or_pos (nodesAll rest) with h | h
    · rw [h]; apply Prod.Lex.right; omega
    · apply Prod.Lex.left; omega
  · apply Prod.Lex.left; have := s.nodes_pos; omega

end

def digest : Stmt → UInt64 × List UInt64
  | .skip => (2, [2])
  | .assign name expr =>
    let h := mixHash 3 (mixHash (hash name) expr.hashCode)
    (h, [h])
  | .branch cond yes no =>
    let h := mixHash 5 (mixHash cond.hashCode (mixHash yes.digest.1 no.digest.1))
    (h, [h])
  | .loop cond body =>
    let h := mixHash 7 (mixHash cond.hashCode body.digest.1)
    (h, [h])
  | .seq first second =>
    let links := first.digest.1 :: second.digest.2
    (links.foldr mixHash 23, links)

def hashCode (s : Stmt) : UInt64 := s.digest.1

end Stmt

end WhileLang
