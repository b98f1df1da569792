import WhileLang.Proofs.Analysis.Pending
import WhileLang.Proofs.Text.Joined
import WhileLang.Proofs.Text.Quoted

/-!
# The analysis of chains

The analysis of two statements in order is `Analysis.andThen`, whose order does not matter
where chains are nested.  So a chain can be analysed by the rules along its nesting, or in one
pass over its top-level statements (`sweep_flatten`), and both come to `Stmt.analyze`.

A name is exposed by statements in order when one of them exposes it and none before that one
defines it (`mem_exposed_ofAll_iff`).  In a report that is a matter of its lines, each of which
lists the two sets of one top-level statement (`Stmt.ReportsAt`).  The sets are found again in the
text of a line, whatever text the names are (`Analysis.describe_append_inj`).
-/

namespace WhileLang

namespace Analysis

/-! ### One pass -/

/-- One pass over statements in order: each exposes what it exposes by itself and what is not
yet defined, and then defines what it defines by itself. -/
def sweep (ss : List Stmt) : Analysis :=
  ss.foldl (fun before s =>
    ⟨before.exposed ∪ (s.analyze.exposed \ before.defined), before.defined ∪ s.analyze.defined⟩)
    nothing

theorem sweep_eq_ofAll (ss : List Stmt) : sweep ss = ofAll ss := by
  have hstep : extend = fun before s =>
      ⟨before.exposed ∪ (s.analyze.exposed \ before.defined),
        before.defined ∪ s.analyze.defined⟩ :=
    funext fun before => funext fun s => extend_eq_andThen before s
  rw [ofAll, hstep]
  rfl

theorem ofAll_flattenAll (pending : List Stmt) :
    ofAll (Stmt.flattenAll pending) = ofAll pending := by
  induction pending using Stmt.flattenAll_induction with
  | nil => rw [Stmt.flattenAll]
  | seq first second pending ih =>
    rw [Stmt.flattenAll_cons_seq, ih, ofAll_cons, ofAll_cons, ofAll_cons, Stmt.analyze_seq,
      andThen_assoc]
  | leaf s pending hs ih =>
    rw [Stmt.flattenAll_cons_of_not_isSeq hs, ofAll_cons, ofAll_cons, ih]

/-- A name is exposed by statements in order when one of them exposes it and none before that
one defines it. -/
theorem mem_exposed_ofAll_iff {x : String} {ss : List Stmt} :
    x ∈ (ofAll ss).exposed ↔ ∃ (i : Nat) (s : Stmt), ss[i]? = some s ∧ x ∈ s.analyze.exposed ∧
      ∀ j < i, ∀ t : Stmt, ss[j]? = some t → ¬x ∈ t.analyze.defined := by
  induction ss with
  | nil =>
    constructor
    · intro h
      exact absurd h (not_mem_exposed_nothing x)
    · rintro ⟨i, s, h, -⟩
      cases h
  | cons first ss ih =>
    rw [ofAll_cons, mem_exposed_andThen, ih]
    constructor
    · rintro (h | ⟨⟨i, s, hs, hx, hbefore⟩, hfirst⟩)
      · exact ⟨0, first, rfl, h, fun j hj => absurd hj (Nat.not_lt_zero j)⟩
      · refine ⟨i + 1, s, hs, hx, fun j hj t ht => ?_⟩
        cases j with
        | zero => cases ht; exact hfirst
        | succ j => exact hbefore j (Nat.lt_of_succ_lt_succ hj) t ht
    · rintro ⟨i, s, hs, hx, hbefore⟩
      cases i with
      | zero => cases hs; exact Or.inl hx
      | succ i =>
        refine Or.inr ⟨⟨i, s, hs, hx, fun j hj t ht => ?_⟩, ?_⟩
        · exact hbefore (j + 1) (Nat.succ_lt_succ hj) t ht
        · exact hbefore 0 (Nat.succ_pos i) first rfl

end Analysis

/-! ### Sets in a text -/

theorem delimited_quoted :
    Delimited (fun _ => True) (fun name => (quoted name).toList) ']' where
  close_ne := by decide
  begins := by
    intro name _
    refine ⟨_, _, String.toList_ofList, ?_⟩
    rcases Quoted.quoteOf_eq_or name.toList with hq | hq <;> rw [hq] <;> decide
  inj := fun _ _ _ _ _ _ _ _ h => quoted_append_inj h

theorem NameSet.toList_debug (s : NameSet) : s.debug.toList =
    '[' :: ([',', ' '].intercalate (s.names.map fun name => (quoted name).toList) ++ [']']) := by
  have htexts : (s.names.map quoted).map String.toList =
      s.names.map fun name => (quoted name).toList := by
    rw [List.map_map]
    rfl
  rw [debug, String.toList_append, String.toList_append, String.toList_intercalate, htexts]
  rfl

theorem NameSet.debug_append_inj {s t : NameSet} {rest rest' : List Char}
    (h : s.debug.toList ++ rest = t.debug.toList ++ rest') : s = t ∧ rest = rest' := by
  rw [toList_debug, toList_debug, List.cons_append, List.cons_append, List.append_assoc,
    List.append_assoc] at h
  obtain ⟨hnames, hrest⟩ := joined_inj delimited_quoted (fun _ _ => trivial) (fun _ _ => trivial)
    (List.cons.inj h).2
  exact ⟨eq_of_names hnames, hrest⟩

theorem Analysis.describe_eq (a : Analysis) :
    a.describe = "unsafe=[" ++ ", ".intercalate (a.exposed.names.map quoted) ++ "], defined=["
      ++ ", ".intercalate (a.defined.names.map quoted) ++ "]" := by
  have hunsafe : "unsafe=[" = "unsafe=" ++ "[" := rfl
  have hdefined : "], defined=[" = "]" ++ (", defined=" ++ "[") := rfl
  simp only [describe, NameSet.debug, hunsafe, hdefined, String.append_assoc]

/-- The two sets can be told from what follows them. -/
theorem Analysis.describe_append_inj {a b : Analysis} {rest rest' : List Char}
    (h : a.describe.toList ++ rest = b.describe.toList ++ rest') : a = b ∧ rest = rest' := by
  simp only [describe, String.toList_append, List.append_assoc] at h
  obtain ⟨hexposed, hbehind⟩ := NameSet.debug_append_inj (List.append_cancel_left h)
  obtain ⟨hdefined, hrest⟩ := NameSet.debug_append_inj (List.append_cancel_left hbehind)
  exact ⟨Analysis.ext hexposed hdefined, hrest⟩
open Analysis

namespace Stmt

theorem ofAll_flatten (s : Stmt) : ofAll s.flatten = s.analyze :=
  (ofAll_flattenAll [s]).trans (ofAll_singleton s)

theorem analyze_chain (ss : List Stmt) : (chain ss).analyze = ofAll ss := by
  induction ss using chain.induct with
  | case1 => rfl
  | case2 s => exact (ofAll_singleton s).symm
  | case3 s rest hne ih =>
    rw [chain, analyze_seq, ih, ofAll_cons]
    exact hne

theorem sweep_flatten (s : Stmt) : sweep s.flatten = s.analyze :=
  (sweep_eq_ofAll s.flatten).trans s.ofAll_flatten

theorem exposedFrom_seq (first second : Stmt) (bound : NameSet) :
    (seq first second).exposedFrom bound =
      first.exposedFrom bound ∪ second.exposedFrom (bound ∪ first.analyze.defined) := by
  refine NameSet.ext fun x => ?_
  simp only [exposedFrom, analyze_seq, mem_exposed_andThen, NameSet.mem_diff, NameSet.mem_union]
  constructor
  · rintro ⟨h | ⟨h, hd⟩, hb⟩
    · exact Or.inl ⟨h, hb⟩
    · exact Or.inr ⟨h, fun hx => hx.elim hb hd⟩
  · rintro (⟨h, hb⟩ | ⟨h, hx⟩)
    · exact ⟨Or.inl h, hb⟩
    · exact ⟨Or.inr ⟨h, fun hd => hx (Or.inr hd)⟩, fun hb => hx (Or.inl hb)⟩

/-! ### The report -/

/-- Line `i` of the report on `s` is on the top-level statement `t`: it shows `t` and lists the
two sets of `t`. -/
def ReportsAt (s : Stmt) (i : Nat) (t : Stmt) : Prop :=
  s.flatten[i]? = some t ∧
    s.report[i]? = some (t.render ++ ": " ++ t.analyze.describe)

theorem reportsAt_iff {s t : Stmt} {i : Nat} : s.ReportsAt i t ↔ s.flatten[i]? = some t := by
  constructor
  · exact And.left
  · intro h
    refine ⟨h, ?_⟩
    have hi : i < (s.flatten.map fun t => t.render ++ ": " ++ t.analyze.describe).length := by
      rw [List.length_map]
      exact (List.getElem?_eq_some_iff.mp h).1
    rw [report, List.getElem?_append_left hi, List.getElem?_map, h, Option.map_some]

theorem length_report (s : Stmt) : s.report.length = s.flatten.length + 1 := by
  rw [report, List.length_append, List.length_map]
  rfl

/-- **The analysis in one pass follows the rules.**  However the statement is nested, the pass
over its top-level statements comes to the sets that the rules give.  Two statements in order
expose what the first one exposes and what the second one exposes and the first one does not
define; they define what either of them defines.  So a name is in the last line of a report if
and only if some line on a top-level statement lists it as exposed and no line before that one
lists it as defined.  A line lists the names of both sets between quotes, and behind any text, and
whatever follows, the two sets can be told from what is written of them. -/
theorem analyze_refines_rules (s first second : Stmt) (bound : NameSet) :
    (s.analyze = s.byRules ∧ sweep s.flatten = s.byRules) ∧
    (seq first second).analyze.exposed =
      first.analyze.exposed ∪ (second.analyze.exposed \ first.analyze.defined) ∧
    (seq first second).analyze.defined = first.analyze.defined ∪ second.analyze.defined ∧
    (seq first second).exposedFrom bound =
      first.exposedFrom bound ∪ second.exposedFrom (bound ∪ first.analyze.defined) ∧
    s.report.getLast? = some ("Program: " ++ s.analyze.describe ++ " -> " ++
      if s.analyze.exposed.isEmpty then "safe" else "UNSAFE") ∧
    (∀ i, i + 1 < s.report.length → ∃ t, s.ReportsAt i t) ∧
    (∀ x, x ∈ s.analyze.exposed ↔ ∃ i t, s.ReportsAt i t ∧ x ∈ t.analyze.exposed ∧
      ∀ j < i, ∀ u, s.ReportsAt j u → ¬x ∈ u.analyze.defined) ∧
    (∀ a : Analysis, a.describe =
      "unsafe=[" ++ ", ".intercalate (a.exposed.names.map quoted) ++ "], defined=["
        ++ ", ".intercalate (a.defined.names.map quoted) ++ "]") ∧
    ∀ (front rest rest' : String) (a b : Analysis),
      front ++ a.describe ++ rest = front ++ b.describe ++ rest' ↔ a = b ∧ rest = rest' := by
  refine ⟨⟨s.analyze_eq_byRules, s.sweep_flatten.trans s.analyze_eq_byRules⟩, ?_, ?_,
    exposedFrom_seq first second bound, ?_, fun i hi => ?_, fun x => ?_,
    describe_eq, fun front rest rest' a b => ⟨fun h => ?_, ?_⟩⟩
  · rw [analyze_seq, andThen]
  · rw [analyze_seq, andThen]
  · rw [report, List.getLast?_concat, isSafe]
  · rw [length_report] at hi
    exact ⟨_, reportsAt_iff.mpr (List.getElem?_eq_getElem (Nat.lt_of_succ_lt_succ hi))⟩
  · simp only [reportsAt_iff]
    rw [← ofAll_flatten, mem_exposed_ofAll_iff]
  · have htext := congrArg String.toList h
    simp only [String.toList_append, List.append_assoc] at htext
    obtain ⟨hab, hrest⟩ := describe_append_inj (List.append_cancel_left htext)
    exact ⟨hab, String.toList_injective hrest⟩
  · rintro ⟨rfl, rfl⟩
    rfl

/-- The last line reads `X` behind the line that defines it, so only the first one exposes it. -/
example : (seq (seq (assign "Y" (.var "X")) (assign "X" (.var "Y"))) (assign "Z" (.var "X"))).report
    = ["Y := X: unsafe=['X'], defined=['Y']", "X := Y: unsafe=['Y'], defined=['X']",
      "Z := X: unsafe=['X'], defined=['Z']",
      "Program: unsafe=['X'], defined=['X', 'Y', 'Z'] -> UNSAFE"] := by
  decide +kernel

end Stmt

end WhileLang
