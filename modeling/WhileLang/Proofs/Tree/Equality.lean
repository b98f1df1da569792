import WhileLang.Draft
import WhileLang.Stmt.Printer

/-!
# Equality along the spine

`Stmt.same` compares chains link by link and `Stmt.debug` writes a chain link by link, with all its
parentheses at the end.  This file shows that neither loses how a chain is nested.

A statement can be told from its links (`links_inj`), so that the comparison of links decides
whether two statements are the same tree (`same_iff`).  The parentheses that wait for the end of a
chain come behind everything else (`debugClosing_succ`), so that a chain is shown as its two parts.

A draft passes for a node exactly if it is the draft of that node (`Draft.node?_eq_ok_iff`), so
comparing drafts keeps them apart too.
-/

namespace WhileLang

namespace Stmt

/-! ### Links -/

theorem links_ne_nil (s : Stmt) : s.links ≠ [] := by
  cases s <;> simp [links]

/-- A chain has two links or more, and any other statement is its only link. -/
theorem links_inj {s t : Stmt} : s.links = t.links ↔ s = t := by
  constructor
  · intro h
    induction s generalizing t with
    | seq first second _ ih =>
      cases t with
      | seq first' second' =>
        obtain ⟨hfirst, hsecond⟩ := List.cons.inj h
        rw [hfirst, ih hsecond]
      | _ => exact absurd (List.cons.inj h).2 second.links_ne_nil
    | _ =>
      cases t with
      | seq first' second' => exact absurd (List.cons.inj h).2.symm second'.links_ne_nil
      | _ => exact (List.cons.inj h).1
  · rintro rfl
    rfl

theorem nodes_le_of_mem {s : Stmt} {l : List Stmt} (h : s ∈ l) : s.nodes ≤ nodesAll l := by
  induction l with
  | nil => cases h
  | cons t rest ih =>
    rw [nodesAll]
    rcases List.mem_cons.mp h with rfl | h
    · omega
    · have := ih h
      omega

theorem nodes_lt_of_mem_links {first second s : Stmt} (h : s ∈ (seq first second).links) :
    s.nodes < (seq first second).nodes := by
  have hlinks := nodesAll_links_le second
  have hle := nodes_le_of_mem h
  rw [links, nodesAll] at hle
  rw [nodes]
  omega

/-! ### Comparison -/

theorem sameAll_iff {l l' : List Stmt} (h : ∀ s ∈ l, ∀ t, s.same t = true ↔ s = t) :
    sameAll l l' = true ↔ l = l' := by
  induction l generalizing l' with
  | nil => cases l' <;> simp [sameAll]
  | cons s rest ih =>
    cases l' with
    | nil => simp [sameAll]
    | cons t rest' =>
      have hrest : sameAll rest rest' = true ↔ rest = rest' :=
        ih fun x hx => h x (List.mem_cons_of_mem s hx)
      rw [sameAll, Bool.and_eq_true, h s List.mem_cons_self, hrest, List.cons.injEq]

theorem same_iff (s t : Stmt) : s.same t = true ↔ s = t := by
  -- The links of a chain are smaller than the chain, but not all of them are its direct parts.
  induction hn : s.nodes using Nat.strongRecOn generalizing s t with
  | ind n ih =>
    subst hn
    cases s with
    | skip => cases t <;> simp [same]
    | assign name expr => cases t <;> simp [same]
    | branch cond yes no =>
      have hyes : yes.nodes < (branch cond yes no).nodes := by rw [nodes]; omega
      have hno : no.nodes < (branch cond yes no).nodes := by rw [nodes]; omega
      cases t with
      | branch cond' yes' no' =>
        simp [same, ih _ hyes yes yes' rfl, ih _ hno no no' rfl, and_assoc]
      | _ => simp [same]
    | loop cond body =>
      have hbody : body.nodes < (loop cond body).nodes := by rw [nodes]; omega
      cases t with
      | loop cond' body' => simp [same, ih _ hbody body body' rfl]
      | _ => simp [same]
    | seq first second =>
      cases t with
      | seq first' second' =>
        have hlinks : ∀ s ∈ (seq first second).links, ∀ t, s.same t = true ↔ s = t :=
          fun s hs t => ih _ (nodes_lt_of_mem_links hs) s t rfl
        rw [same, ← links_inj]
        exact sameAll_iff hlinks
      | _ => simp [same]

theorem seq_seq_ne (first middle last : Stmt) :
    seq (seq first middle) last ≠ seq first (seq middle last) := by
  intro h
  have hnodes := congrArg nodes (seq.inj h).1
  rw [nodes] at hnodes
  omega

/-! ### Numbers and texts -/

theorem digest_snd (s : Stmt) : s.digest.2 = s.links.map hashCode := by
  induction s with
  | seq first second _ ih => rw [digest, links, List.map_cons, ← ih]; rfl
  | _ => rfl

theorem hashCode_seq (first second : Stmt) :
    (seq first second).hashCode = ((seq first second).links.map hashCode).foldr mixHash 23 := by
  rw [← digest_snd]
  rfl

theorem debugClosing_seq (first second : Stmt) (closing : Nat) :
    (seq first second).debugClosing closing =
      "Sequence(first=" ++ first.debug ++ ", second=" ++ second.debugClosing (closing + 1) := rfl

theorem append_parens_succ (text : String) (n : Nat) :
    text ++ debugClosing.parens (n + 1) = text ++ debugClosing.parens n ++ ")" := by
  have hparens : debugClosing.parens (n + 1) = debugClosing.parens n ++ ")" := by
    rw [debugClosing.parens, debugClosing.parens, List.replicate_succ', String.ofList_append]
  rw [hparens, String.append_assoc]

/-- A parenthesis that waits for the end of the chain comes behind everything else. -/
theorem debugClosing_succ (s : Stmt) (closing : Nat) :
    s.debugClosing (closing + 1) = s.debugClosing closing ++ ")" := by
  induction s generalizing closing with
  | seq first second _ ih =>
    rw [debugClosing_seq, debugClosing_seq, ih (closing + 1), ← String.append_assoc]
  | _ => exact append_parens_succ _ closing

theorem debug_seq (first second : Stmt) :
    (seq first second).debug =
      "Sequence(first=" ++ first.debug ++ ", second=" ++ second.debug ++ ")" := by
  rw [debug, debugClosing_seq, debugClosing_succ, ← String.append_assoc]
  rfl

end Stmt

theorem Node.same_iff (a b : Node) : a.same b = true ↔ a = b := by
  cases a with
  | expr e =>
    cases b with
    | expr e' => simp [Node.same]
    | stmt t => simp [Node.same]
  | stmt s =>
    cases b with
    | expr e' => simp [Node.same]
    | stmt t => simp [Node.same, Stmt.same_iff]

/-! ### Drafts -/

namespace Draft

theorem bind_eq_ok {α β : Type} {x : Except NotNode α} {f : α → Except NotNode β} {b : β} :
    x >>= f = .ok b ↔ ∃ a, x = .ok a ∧ f a = .ok b := by
  cases x <;> simp [bind, Except.bind]

theorem node?_ofExpr (e : Expr) : (ofExpr e).node? = .ok (.expr e) := by
  induction e with
  | var => rfl
  | lit => rfl
  | bin op left right ihl ihr => simp only [ofExpr, node?, ihl, ihr]; rfl

theorem node?_ofStmt (s : Stmt) : (ofStmt s).node? = .ok (.stmt s) := by
  induction s with
  | skip => rfl
  | assign name expr => simp only [ofStmt, node?, node?_ofExpr]; rfl
  | branch cond yes no ihy ihn => simp only [ofStmt, node?, node?_ofExpr, ihy, ihn]; rfl
  | loop cond body ih => simp only [ofStmt, node?, node?_ofExpr, ih]; rfl
  | seq first second ih1 ih2 => simp only [ofStmt, node?, ih1, ih2]; rfl

theorem node?_eq_ok_iff {d : Draft} {n : Node} : d.node? = .ok n ↔ d = n.draft := by
  constructor
  · intro h
    induction d generalizing n with
    | value v => cases h
    | text s => cases h
    | var name => cases h; rfl
    | lit v => cases h; rfl
    | skip => cases h; rfl
    | bin op left right ihl ihr =>
      simp only [node?, bind_eq_ok, Node.expr?_eq_ok] at h
      obtain ⟨_, hl, l, rfl, _, hr, r, rfl, h⟩ := h
      cases h
      rw [ihl hl, ihr hr]; rfl
    | assign name expr ih =>
      simp only [node?, bind_eq_ok, Node.expr?_eq_ok] at h
      obtain ⟨_, he, e, rfl, h⟩ := h
      cases h
      rw [ih he]; rfl
    | branch cond yes no ihc ihy ihn =>
      simp only [node?, bind_eq_ok, Node.expr?_eq_ok, Node.stmt?_eq_ok] at h
      obtain ⟨_, hy, y, rfl, _, hn, n, rfl, _, hc, c, rfl, h⟩ := h
      cases h
      rw [ihc hc, ihy hy, ihn hn]; rfl
    | loop cond body ihc ihb =>
      simp only [node?, bind_eq_ok, Node.expr?_eq_ok, Node.stmt?_eq_ok] at h
      obtain ⟨_, hb, b, rfl, _, hc, c, rfl, h⟩ := h
      cases h
      rw [ihc hc, ihb hb]; rfl
    | seq first second ih1 ih2 =>
      simp only [node?, bind_eq_ok, Node.stmt?_eq_ok] at h
      obtain ⟨_, h1, a, rfl, _, h2, b, rfl, h⟩ := h
      cases h
      rw [ih1 h1, ih2 h2]; rfl
  · rintro rfl
    cases n with
    | expr e => exact node?_ofExpr e
    | stmt s => exact node?_ofStmt s

end Draft

theorem Node.draft_inj {m n : Node} : m.draft = n.draft ↔ m = n := by
  constructor
  · intro h
    have hnode := (Draft.node?_eq_ok_iff.mpr rfl).symm.trans (Draft.node?_eq_ok_iff.mpr h)
    exact Except.ok.inj hnode
  · rintro rfl
    rfl

/-- Comparing drafts decides whether they are the same tree, be they nodes or not. -/
theorem Draft.same_iff (a b : Draft) : a.same b = true ↔ a = b := by
  rw [same]
  split
  · next m n ha hb =>
    rw [node?_eq_ok_iff.mp ha, node?_eq_ok_iff.mp hb, Node.same_iff, Node.draft_inj]
  · exact beq_iff_eq

/-- **Comparing and showing chains by their links keeps how they are nested.**  Nodes compare
equal if and only if they are the same tree, wherever there are chains in them, so a chain nested
to the left is not equal to the one nested to the right.  Equality is an equivalence, and equal
nodes have equal numbers; that of a chain is made from the numbers of its links.  A chain is shown
as its first and its second statement, whatever these are. -/
theorem Node.same_exact :
    (∀ a b : Node, a.same b = true ↔ a = b) ∧
    (∀ first middle last : Stmt,
      (Stmt.seq (.seq first middle) last).same (.seq first (.seq middle last)) = false) ∧
    Equivalence (fun a b : Node => a.same b = true) ∧
    (∀ a b : Node, a.same b = true → a.hashCode = b.hashCode) ∧
    (∀ first second : Stmt, (Stmt.seq first second).hashCode =
      ((Stmt.seq first second).links.map Stmt.hashCode).foldr mixHash 23) ∧
    ∀ first second : Stmt, (Stmt.seq first second).debug =
      "Sequence(first=" ++ first.debug ++ ", second=" ++ second.debug ++ ")" := by
  refine ⟨Node.same_iff, fun first middle last => ?_, ⟨fun a => ?_, ?_, ?_⟩, ?_,
    Stmt.hashCode_seq, Stmt.debug_seq⟩
  · rw [Bool.eq_false_iff]
    intro h
    exact Stmt.seq_seq_ne first middle last ((Stmt.same_iff _ _).mp h)
  · exact (Node.same_iff a a).mpr rfl
  · intro a b h
    exact (Node.same_iff b a).mpr ((Node.same_iff a b).mp h).symm
  · intro a b c hab hbc
    exact (Node.same_iff a c).mpr (((Node.same_iff a b).mp hab).trans ((Node.same_iff b c).mp hbc))
  · intro a b h
    rw [(Node.same_iff a b).mp h]

/-- A chain nested to the left, in a branch. -/
def guardedSteps : Stmt :=
  .branch (.var "X")
    (.seq (.seq (.assign "A" (.lit (.int 1))) (.assign "B" (.var "A"))) (.assign "A" (.var "B")))
    .skip

def guardedChain : Stmt :=
  .branch (.var "X")
    (.chain [.assign "A" (.lit (.int 1)), .assign "B" (.var "A"), .assign "A" (.var "B")]) .skip

/-- The two branches are not equal, but the first one nested to the right is equal to the second
and has the same number. -/
theorem same_exact_guardedSteps :
    ¬(Node.stmt guardedSteps).same (.stmt guardedChain) = true ∧
    (Node.stmt guardedSteps.rightNest).same (.stmt guardedChain) = true ∧
    (Node.stmt guardedSteps.rightNest).hashCode = (Node.stmt guardedChain).hashCode := by
  obtain ⟨hsame, -, -, hhash, -, -⟩ := Node.same_exact
  have hnested : (Node.stmt guardedSteps.rightNest).same (.stmt guardedChain) = true :=
    (hsame _ _).mpr (by decide)
  refine ⟨?_, hnested, hhash _ _ hnested⟩
  rw [hsame]
  decide

end WhileLang
