import Mathlib.Data.List.Basic
import WhileLang.Outline
import WhileLang.Proofs.Printing.Value
import WhileLang.Proofs.Text.Quoted
import WhileLang.Proofs.Text.Joined

/-!
# Reading outlines

An outline determines its tree, except for how chains are nested (`Stmt.outlineText_exact`).

An expression ends where all its operands have been shown, whatever follows it
(`Expr.outlineText_append_inj`).  A chain has any number of statements, so it ends only where a
line stands further out than they do (`Outside`).  Two facts are therefore carried along a
statement: it can be told, with all that stands below it, from what follows (`Readable`), and so
can its top-level statements behind one another if what follows does not go on at their depth
(`ItemsReadable`).

Outlines do not show how a chain is nested (`outline_rightNest`), so both facts are about trees
that are nested to the right (`RightNested`).
-/

namespace WhileLang

/-! ### Lines -/

namespace OutlineLine

theorem render_node_inj {depth : Int} {a b : String} :
    (node depth a).render = (node depth b).render ↔ a = b :=
  String.append_right_inj (indentation depth)

theorem render_field_inj {depth : Int} {a b : String} :
    (field depth a).render = (field depth b).render ↔ a = b :=
  String.append_right_inj (indentation depth ++ "  ")

/-- How many spaces a line begins with. -/
def margin (line : String) : Nat := (line.toList.takeWhile fun c => c == ' ').length

theorem margin_node {depth : Int} {label : String} (h : label.toList.head? ≠ some ' ') :
    margin (node depth label).render = 2 * depth.toNat := by
  have hspaces : ∀ c ∈ List.replicate (2 * depth.toNat) ' ', (c == ' ') = true := by
    intro c hc
    rw [List.eq_of_mem_replicate hc]
    rfl
  have hlabel : ∀ c, label.toList.head? = some c → (c == ' ') = false := by
    intro c hc
    rw [beq_eq_false_iff_ne]
    rintro rfl
    exact h hc
  rw [margin, render, indentation, String.toList_append, String.toList_ofList,
    takeWhile_append_of_head hspaces hlabel, List.length_replicate]

def depth : OutlineLine → Int
  | node depth _ => depth
  | field depth _ => depth

theorem indentation_add {depth : Int} (hdepth : 0 ≤ depth) (k : Nat) :
    indentation (depth + k) = indentation k ++ indentation depth := by
  have hspaces : 2 * (depth + k).toNat = 2 * (k : Int).toNat + 2 * depth.toNat := by omega
  rw [indentation, indentation, indentation, hspaces, ← List.replicate_append_replicate,
    String.ofList_append]

theorem render_shift {line : OutlineLine} (hline : 0 ≤ line.depth) (k : Nat) :
    (line.shift k).render = indentation k ++ line.render := by
  cases line with
  | node depth label =>
    have hdepth : 0 ≤ depth := hline
    rw [shift, render, render, indentation_add hdepth, String.append_assoc]
  | field depth text =>
    have hdepth : 0 ≤ depth := hline
    rw [shift, render, render, indentation_add hdepth]
    simp only [String.append_assoc]

theorem map_render_shift {lines : List OutlineLine} (h : ∀ line ∈ lines, 0 ≤ line.depth) (k : Nat) :
    (lines.map (shift k)).map render =
      (lines.map render).map (String.ofList (List.replicate (2 * k) ' ') ++ ·) := by
  rw [List.map_map, List.map_map]
  exact List.map_congr_left fun line hline => render_shift (h line hline) k

end OutlineLine

open OutlineLine

/-! ### Expressions -/

theorem Operator.debug_inj {op op' : Operator} : op.debug = op'.debug ↔ op = op' := by
  have hfind (op : Operator) : all.find? (fun o => o.debug == op.debug) = some op := by
    cases op <;> decide
  constructor
  · intro h
    have hop := hfind op
    rw [h, hfind op', Option.some.injEq] at hop
    exact hop.symm
  · rintro rfl
    rfl

namespace Expr

/-- No line of an expression stands further out than its first one. -/
theorem le_depth {e : Expr} {d : Int} {line : OutlineLine} (h : line ∈ e.outline d) :
    d ≤ line.depth := by
  induction e generalizing d with
  | var name =>
    rcases List.mem_pair.mp h with rfl | rfl <;> exact Int.le_refl d
  | lit value =>
    rcases List.mem_pair.mp h with rfl | rfl <;> exact Int.le_refl d
  | bin op left right ihl ihr =>
    simp only [outline, List.mem_cons, List.mem_append] at h
    rcases h with rfl | rfl | h | h
    · exact Int.le_refl d
    · exact Int.le_refl d
    · have hle := ihl h
      omega
    · have hle := ihr h
      omega

theorem outlineText_bin (op : Operator) (left right : Expr) (d : Int) :
    (bin op left right).outlineText d = (node d "BinaryOp").render :: (field d op.debug).render ::
      (left.outlineText (d + 1) ++ right.outlineText (d + 1)) := by
  simp [outlineText, outline]

theorem head?_outlineText (e : Expr) (d : Int) (rest : List String) :
    (e.outlineText d ++ rest).head? = some (node d e.label).render := by
  cases e <;> rfl

theorem label_eq_of_outlineText {e e' : Expr} {d : Int} {rest rest' : List String}
    (h : e.outlineText d ++ rest = e'.outlineText d ++ rest') : e.label = e'.label := by
  have hhead := congrArg List.head? h
  rw [head?_outlineText, head?_outlineText, Option.some.injEq, render_node_inj] at hhead
  exact hhead

/-- An expression ends where all of it has been shown. -/
theorem outlineText_append_inj {e e' : Expr} {d : Int} {rest rest' : List String}
    (h : e.outlineText d ++ rest = e'.outlineText d ++ rest') : e = e' ∧ rest = rest' := by
  induction e generalizing e' d rest rest' with
  | var name =>
    have hlabel := label_eq_of_outlineText h
    cases e' with
    | var name' =>
      obtain ⟨hfield, hrest⟩ := List.cons.inj (List.cons.inj h).2
      rw [quoted_inj.mp (render_field_inj.mp hfield)]
      exact ⟨rfl, hrest⟩
    | _ => exact absurd hlabel (by simp [label])
  | lit value =>
    have hlabel := label_eq_of_outlineText h
    cases e' with
    | lit value' =>
      obtain ⟨hfield, hrest⟩ := List.cons.inj (List.cons.inj h).2
      rw [Value.debug_inj.mp (render_field_inj.mp hfield)]
      exact ⟨rfl, hrest⟩
    | _ => exact absurd hlabel (by simp [label])
  | bin op left right ihl ihr =>
    have hlabel := label_eq_of_outlineText h
    cases e' with
    | bin op' left' right' =>
      rw [outlineText_bin, outlineText_bin, List.cons_append, List.cons_append, List.cons_append,
        List.cons_append, List.append_assoc, List.append_assoc] at h
      obtain ⟨hfield, hoperands⟩ := List.cons.inj (List.cons.inj h).2
      obtain ⟨rfl, hright⟩ := ihl hoperands
      obtain ⟨rfl, hrest⟩ := ihr hright
      rw [Operator.debug_inj.mp (render_field_inj.mp hfield)]
      exact ⟨rfl, hrest⟩
    | _ => exact absurd hlabel (by simp [label])

theorem outlineText_natCast (e : Expr) (k : Nat) :
    e.outlineText k =
      (e.outlineText 0).map (String.ofList (List.replicate (2 * k) ' ') ++ ·) := by
  rw [outlineText, ← Int.zero_add (k : Int), outline_add]
  exact map_render_shift (fun _ hline => le_depth hline) k

end Expr

/-! ### Trees nested to the right -/

namespace Stmt

/-- No chain in the statement has a chain as its first statement. -/
def RightNested : Stmt → Prop
  | .skip => True
  | .assign .. => True
  | .branch _ yes no => yes.RightNested ∧ no.RightNested
  | .loop _ body => body.RightNested
  | .seq first second => first.isSeq = false ∧ first.RightNested ∧ second.RightNested

theorem rightNested_append {s t : Stmt} (hs : s.RightNested) (ht : t.RightNested) :
    (rightNest.append s t).RightNested := by
  induction s with
  | seq first second _ ih => exact ⟨hs.1, hs.2.1, ih hs.2.2⟩
  | _ => exact ⟨rfl, hs, ht⟩

theorem rightNested_rightNest (s : Stmt) : s.rightNest.RightNested := by
  induction s with
  | skip => trivial
  | assign name expr => trivial
  | branch cond yes no ihy ihn => exact ⟨ihy, ihn⟩
  | loop cond body ih => exact ih
  | seq first second ih1 ih2 => exact rightNested_append ih1 ih2

/-! ### Outlines of statements -/

theorem outlineItems_branch (cond : Expr) (yes no : Stmt) (d : Int) :
    (branch cond yes no).outlineItems d = node d "If" ::
      (cond.outline (d + 1) ++ (yes.outline (d + 1) ++ no.outline (d + 1))) := by
  have htwo : d + 1 + 1 = d + 2 := by omega
  rw [outlineItems, outline, outline, htwo, List.append_assoc]

theorem outlineItems_loop (cond : Expr) (body : Stmt) (d : Int) :
    (loop cond body).outlineItems d =
      node d "While" :: (cond.outline (d + 1) ++ body.outline (d + 1)) := by
  have htwo : d + 1 + 1 = d + 2 := by omega
  rw [outlineItems, outline, htwo]

theorem le_depth_of_items {s : Stmt} {d : Int} {line : OutlineLine}
    (h : ∀ d line, line ∈ s.outlineItems d → d ≤ line.depth) (hline : line ∈ s.outline d) :
    d ≤ line.depth := by
  rw [outline] at hline
  split at hline
  · rcases List.mem_cons.mp hline with rfl | hline
    · exact Int.le_refl d
    · have hle := h _ _ hline
      omega
  · exact h d line hline

theorem le_depth_outlineItems (s : Stmt) (d : Int) (line : OutlineLine)
    (h : line ∈ s.outlineItems d) : d ≤ line.depth := by
  induction s generalizing d line with
  | skip =>
    rw [List.mem_singleton.mp h]
    exact Int.le_refl d
  | assign name expr =>
    simp only [outlineItems, List.mem_cons] at h
    rcases h with rfl | rfl | h
    · exact Int.le_refl d
    · exact Int.le_refl d
    · have hle := Expr.le_depth h
      omega
  | branch cond yes no ihy ihn =>
    simp only [outlineItems_branch, List.mem_cons, List.mem_append] at h
    rcases h with rfl | h | h | h
    · exact Int.le_refl d
    · have hle := Expr.le_depth h
      omega
    · have hle := le_depth_of_items ihy h
      omega
    · have hle := le_depth_of_items ihn h
      omega
  | loop cond body ih =>
    simp only [outlineItems_loop, List.mem_cons, List.mem_append] at h
    rcases h with rfl | h | h
    · exact Int.le_refl d
    · have hle := Expr.le_depth h
      omega
    · have hle := le_depth_of_items ih h
      omega
  | seq first second ih1 ih2 =>
    rcases List.mem_append.mp h with h | h
    · exact ih1 d line h
    · exact ih2 d line h

theorem le_depth {s : Stmt} {d : Int} {line : OutlineLine} (h : line ∈ s.outline d) :
    d ≤ line.depth :=
  le_depth_of_items s.le_depth_outlineItems h

theorem outlineItems_append (s t : Stmt) (d : Int) :
    (rightNest.append s t).outlineItems d = s.outlineItems d ++ t.outlineItems d := by
  induction s with
  | seq first second _ ih =>
    rw [rightNest.append, outlineItems, ih, outlineItems, List.append_assoc]
  | _ => rfl

theorem isSeq_rightNest (s : Stmt) : s.rightNest.isSeq = s.isSeq := by
  cases s with
  | seq first second => rw [rightNest]; cases first.rightNest <;> rfl
  | _ => rfl

theorem outlineItems_rightNest (s : Stmt) (d : Int) :
    s.rightNest.outlineItems d = s.outlineItems d := by
  induction s generalizing d with
  | skip => rfl
  | assign name expr => rfl
  | branch cond yes no ihy ihn =>
    rw [rightNest, outlineItems_branch, outlineItems_branch]
    simp only [outline, isSeq_rightNest, ihy, ihn]
  | loop cond body ih =>
    rw [rightNest, outlineItems_loop, outlineItems_loop]
    simp only [outline, isSeq_rightNest, ih]
  | seq first second ih1 ih2 => rw [rightNest, outlineItems_append, ih1, ih2, outlineItems]

theorem outline_rightNest (s : Stmt) (d : Int) : s.rightNest.outline d = s.outline d := by
  rw [outline, outline, isSeq_rightNest, outlineItems_rightNest, outlineItems_rightNest]

/-! ### Printed outlines of statements -/

def itemsText (d : Int) (s : Stmt) : List String := (s.outlineItems d).map OutlineLine.render

theorem outlineText_rightNest (s : Stmt) (d : Int) :
    s.rightNest.outlineText d = s.outlineText d := by
  rw [outlineText, outline_rightNest, outlineText]

theorem outlineText_eq_itemsText {s : Stmt} (hs : s.isSeq = false) (d : Int) :
    s.outlineText d = s.itemsText d := by
  rw [outlineText, outline, hs]
  rfl

theorem outlineText_seq (first second : Stmt) (d : Int) :
    (seq first second).outlineText d =
      (node d "Sequence").render :: (seq first second).itemsText (d + 1) := rfl

theorem itemsText_seq {first : Stmt} (hfirst : first.isSeq = false) (second : Stmt) (d : Int) :
    (seq first second).itemsText d = first.outlineText d ++ second.itemsText d := by
  rw [outlineText_eq_itemsText hfirst, itemsText, outlineItems, List.map_append, itemsText,
    itemsText]

theorem outlineText_branch (cond : Expr) (yes no : Stmt) (d : Int) :
    (branch cond yes no).outlineText d = (node d "If").render ::
      (cond.outlineText (d + 1) ++ (yes.outlineText (d + 1) ++ no.outlineText (d + 1))) := by
  rw [outlineText_eq_itemsText rfl, itemsText, outlineItems_branch, List.map_cons, List.map_append,
    List.map_append]
  rfl

theorem outlineText_loop (cond : Expr) (body : Stmt) (d : Int) :
    (loop cond body).outlineText d = (node d "While").render ::
      (cond.outlineText (d + 1) ++ body.outlineText (d + 1)) := by
  rw [outlineText_eq_itemsText rfl, itemsText, outlineItems_loop, List.map_cons, List.map_append]
  rfl

theorem head?_outlineText (s : Stmt) (d : Int) (rest : List String) :
    (s.outlineText d ++ rest).head? = some (node d s.label).render := by
  cases s <;> rfl

theorem label_eq_of_outlineText {s t : Stmt} {d : Int} {rest rest' : List String}
    (h : s.outlineText d ++ rest = t.outlineText d ++ rest') : s.label = t.label := by
  have hhead := congrArg List.head? h
  rw [head?_outlineText, head?_outlineText, Option.some.injEq, render_node_inj] at hhead
  exact hhead

/-! ### Where a chain ends -/

def BeginsAt (d : Int) (lines : List String) : Prop :=
  ∃ line, lines.head? = some line ∧ margin line = 2 * d.toNat

/-- The lines do not go on at a depth, so that a chain whose statements stand there has ended. -/
def Outside (d : Int) (lines : List String) : Prop :=
  ∀ line, lines.head? = some line → margin line < 2 * d.toNat

theorem outside_nil (d : Int) : Outside d [] := by
  intro line h
  cases h

theorem Outside.succ {d : Int} {lines : List String} (h : Outside d lines) :
    Outside (d + 1) lines := by
  intro line hline
  have hlt := h line hline
  omega

theorem BeginsAt.outside {d : Int} {lines : List String} (h : BeginsAt d lines) (hd : 0 ≤ d) :
    Outside (d + 1) lines := by
  obtain ⟨line, hhead, hmargin⟩ := h
  intro line' hline'
  rw [hhead, Option.some.injEq] at hline'
  subst hline'
  omega

theorem BeginsAt.not_outside {d : Int} {lines : List String} (h : BeginsAt d lines) :
    ¬ Outside d lines := by
  obtain ⟨line, hhead, hmargin⟩ := h
  intro hout
  have hlt := hout line hhead
  omega

theorem head?_label (s : Stmt) : s.label.toList.head? ≠ some ' ' := by
  cases s <;> simp [label]

theorem beginsAt_outlineText (s : Stmt) (d : Int) (rest : List String) :
    BeginsAt d (s.outlineText d ++ rest) :=
  ⟨_, head?_outlineText s d rest, margin_node s.head?_label⟩

theorem beginsAt_itemsText (s : Stmt) (d : Int) (rest : List String) :
    BeginsAt d (s.itemsText d ++ rest) := by
  induction s generalizing rest with
  | seq first second ih _ =>
    rw [itemsText, outlineItems, List.map_append, List.append_assoc]
    exact ih _
  | _ =>
    rw [← outlineText_eq_itemsText rfl]
    exact beginsAt_outlineText _ d rest

/-! ### Trees from lines -/

/-- The statement, with what stands below it, can be told from what follows. -/
def Readable (s : Stmt) : Prop :=
  ∀ (t : Stmt) (d : Int) (rest rest' : List String), t.RightNested → 0 ≤ d →
    Outside (d + 1) rest → Outside (d + 1) rest' →
    s.outlineText d ++ rest = t.outlineText d ++ rest' → s = t ∧ rest = rest'

def ItemsReadable (s : Stmt) : Prop :=
  ∀ (t : Stmt) (d : Int) (rest rest' : List String), t.RightNested → 0 ≤ d →
    Outside d rest → Outside d rest' →
    s.itemsText d ++ rest = t.itemsText d ++ rest' → s = t ∧ rest = rest'

theorem readable_skip : Readable skip := by
  intro t d rest rest' _ _ _ _ h
  have hlabel := label_eq_of_outlineText h
  cases t with
  | skip => exact ⟨rfl, (List.cons.inj h).2⟩
  | _ => exact absurd hlabel (by simp [label])

theorem readable_assign (name : String) (expr : Expr) : Readable (assign name expr) := by
  intro t d rest rest' _ _ _ _ h
  have hlabel := label_eq_of_outlineText h
  cases t with
  | assign name' expr' =>
    obtain ⟨hname, hexpr⟩ := List.cons.inj (List.cons.inj h).2
    obtain ⟨rfl, hrest⟩ := Expr.outlineText_append_inj hexpr
    rw [quoted_inj.mp (render_field_inj.mp hname)]
    exact ⟨rfl, hrest⟩
  | _ => exact absurd hlabel (by simp [label])

theorem readable_branch (cond : Expr) {yes no : Stmt} (hyes : Readable yes) (hno : Readable no) :
    Readable (branch cond yes no) := by
  intro t d rest rest' ht hd hrest hrest' h
  have hlabel := label_eq_of_outlineText h
  have hd' : 0 ≤ d + 1 := by omega
  cases t with
  | branch cond' yes' no' =>
    simp only [outlineText_branch, List.cons_append, List.append_assoc] at h
    obtain ⟨rfl, hparts⟩ := Expr.outlineText_append_inj (List.cons.inj h).2
    obtain ⟨rfl, hlast⟩ := hyes yes' (d + 1) _ _ ht.1 hd'
      ((beginsAt_outlineText no _ _).outside hd') ((beginsAt_outlineText no' _ _).outside hd')
      hparts
    obtain ⟨rfl, hend⟩ := hno no' (d + 1) _ _ ht.2 hd' hrest.succ hrest'.succ hlast
    exact ⟨rfl, hend⟩
  | _ => exact absurd hlabel (by simp [label])

theorem readable_loop (cond : Expr) {body : Stmt} (hbody : Readable body) :
    Readable (loop cond body) := by
  intro t d rest rest' ht hd hrest hrest' h
  have hlabel := label_eq_of_outlineText h
  cases t with
  | loop cond' body' =>
    simp only [outlineText_loop, List.cons_append, List.append_assoc] at h
    obtain ⟨rfl, hparts⟩ := Expr.outlineText_append_inj (List.cons.inj h).2
    obtain ⟨rfl, hend⟩ := hbody body' (d + 1) _ _ ht (by omega) hrest.succ hrest'.succ hparts
    exact ⟨rfl, hend⟩
  | _ => exact absurd hlabel (by simp [label])

theorem readable_seq {first second : Stmt} (h : ItemsReadable (seq first second)) :
    Readable (seq first second) := by
  intro t d rest rest' ht hd hrest hrest' heq
  have hlabel := label_eq_of_outlineText heq
  cases t with
  | seq first' second' =>
    rw [outlineText_seq, outlineText_seq] at heq
    exact h _ (d + 1) rest rest' ht (by omega) hrest hrest' (List.cons.inj heq).2
  | _ => exact absurd hlabel (by simp [label])

/-- One statement by itself is told from a chain by what follows: a chain has more to come. -/
theorem Readable.items {s : Stmt} (hs : s.isSeq = false) (h : Readable s) : ItemsReadable s := by
  intro t d rest rest' ht hd hrest hrest' heq
  rw [← outlineText_eq_itemsText hs] at heq
  cases t with
  | seq first second =>
    rw [itemsText_seq ht.1, List.append_assoc] at heq
    have hmore := beginsAt_itemsText second d rest'
    obtain ⟨-, hlines⟩ := h first d rest _ ht.2.1 hd hrest.succ (hmore.outside hd) heq
    rw [hlines] at hrest
    exact absurd hrest hmore.not_outside
  | _ => exact h _ d rest rest' ht hd hrest.succ hrest'.succ heq

theorem itemsReadable_seq {first second : Stmt} (hseq : first.isSeq = false)
    (hfirst : Readable first) (hsecond : ItemsReadable second) :
    ItemsReadable (seq first second) := by
  intro t d rest rest' ht hd hrest hrest' heq
  have hmore := beginsAt_itemsText second d rest
  rw [itemsText_seq hseq, List.append_assoc] at heq
  cases t with
  | seq first' second' =>
    rw [itemsText_seq ht.1, List.append_assoc] at heq
    obtain ⟨rfl, hlines⟩ := hfirst first' d _ _ ht.2.1 hd (hmore.outside hd)
      ((beginsAt_itemsText second' d rest').outside hd) heq
    obtain ⟨rfl, hend⟩ := hsecond second' d rest rest' ht.2.2 hd hrest hrest' hlines
    exact ⟨rfl, hend⟩
  | _ =>
    obtain ⟨-, hlines⟩ := hfirst _ d _ rest' ht hd (hmore.outside hd) hrest'.succ heq
    rw [← hlines] at hrest'
    exact absurd hrest' hmore.not_outside

theorem readable {s : Stmt} (hs : s.RightNested) : Readable s ∧ ItemsReadable s := by
  induction s with
  | skip => exact ⟨readable_skip, readable_skip.items rfl⟩
  | assign name expr =>
    exact ⟨readable_assign name expr, (readable_assign name expr).items rfl⟩
  | branch cond yes no ihy ihn =>
    have h := readable_branch cond (ihy hs.1).1 (ihn hs.2).1
    exact ⟨h, h.items rfl⟩
  | loop cond body ih =>
    have h := readable_loop cond (ih hs).1
    exact ⟨h, h.items rfl⟩
  | seq first second ih1 ih2 =>
    have h := itemsReadable_seq hs.1 (ih1 hs.2.1).1 (ih2 hs.2.2).2
    exact ⟨readable_seq h, h⟩

theorem outlineText_inj {p q : Stmt} {d : Int} (hd : 0 ≤ d) :
    p.outlineText d = q.outlineText d ↔ p.rightNest = q.rightNest := by
  rw [← outlineText_rightNest p, ← outlineText_rightNest q]
  constructor
  · intro h
    have happend : p.rightNest.outlineText d ++ [] = q.rightNest.outlineText d ++ [] := by rw [h]
    exact ((readable (rightNested_rightNest p)).1 q.rightNest d [] [] (rightNested_rightNest q) hd
      (outside_nil _) (outside_nil _) happend).1
  · intro h
    rw [h]

/-- An outline at a depth is the one at the margin with two spaces for each level in front. -/
theorem outlineText_natCast (s : Stmt) (k : Nat) :
    s.outlineText k =
      (s.outlineText 0).map (String.ofList (List.replicate (2 * k) ' ') ++ ·) := by
  rw [outlineText, ← Int.zero_add (k : Int), outline_add]
  exact map_render_shift (fun _ hline => le_depth hline) k

/-- **An outline determines the program** up to the nesting of its chains, whatever text its names
are.  At depth `k` the outline of a statement or an expression is the same one behind `2 * k`
spaces. -/
theorem outlineText_exact :
    (∀ p q : Stmt, p.outlineText 0 = q.outlineText 0 ↔ p.rightNest = q.rightNest) ∧
    (∀ (s : Stmt) (k : Nat), s.outlineText k =
      (s.outlineText 0).map (String.ofList (List.replicate (2 * k) ' ') ++ ·)) ∧
    ∀ (e : Expr) (k : Nat), e.outlineText k =
      (e.outlineText 0).map (String.ofList (List.replicate (2 * k) ' ') ++ ·) :=
  ⟨fun _ _ => outlineText_inj (Int.le_refl 0), outlineText_natCast, Expr.outlineText_natCast⟩

/-- A chain nested to the left is shown flat. -/
example : (seq (seq skip (assign "X" (.lit (.int 1)))) skip).outlineText 1 =
    ["  Sequence", "    Skip", "    Assign", "      'X'", "      Literal",
      "        IntVal(value=1)", "    Skip"] := by decide

end Stmt

end WhileLang
