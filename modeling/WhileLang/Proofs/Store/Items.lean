import Mathlib.Data.List.Sort
import WhileLang.Proofs.Store.Prepend

/-!
# The items of a store

`Store.putItem` keeps a list of items in the order of names, so the items of a store are in
strictly increasing order (`increasing_items`), and every name has at most one item
(`Increasing.distinct`).  Among items for distinct names the value of a name says which item it
has (`mem_iff_lookup`), and two increasing lists with the same values are the same list.

Hence stores are the same mapping exactly if they have the same value of every name
(`same_iff_lookup?`).  Their bindings may be any number and in any order.
-/

namespace WhileLang.Store

/-- The items are in strictly increasing order of their names. -/
abbrev Increasing (items : List (String × Value)) : Prop := items.Pairwise fun a b => a.1 < b.1

theorem mem_putItem {name : String} {value : Value} {b : String × Value}
    {items : List (String × Value)} (h : b ∈ putItem name value items) :
    b = (name, value) ∨ b ∈ items := by
  induction items with
  | nil => exact Or.inl (List.mem_singleton.mp h)
  | cons item rest ih =>
    rw [putItem] at h
    by_cases hlt : name < item.1
    · rw [if_pos hlt] at h
      exact List.mem_cons.mp h
    · rw [if_neg hlt] at h
      by_cases he : name = item.1
      · rw [if_pos he] at h
        rcases List.mem_cons.mp h with h | h
        · exact Or.inl h
        · exact Or.inr (List.mem_cons_of_mem item h)
      · rw [if_neg he] at h
        rcases List.mem_cons.mp h with rfl | h
        · exact Or.inr List.mem_cons_self
        · rcases ih h with h | h
          · exact Or.inl h
          · exact Or.inr (List.mem_cons_of_mem item h)

theorem increasing_putItem (name : String) (value : Value) {items : List (String × Value)}
    (h : Increasing items) : Increasing (putItem name value items) := by
  induction items with
  | nil => exact List.pairwise_singleton _ _
  | cons item rest ih =>
    obtain ⟨hitem, hrest⟩ := List.pairwise_cons.mp h
    rw [putItem]
    by_cases hlt : name < item.1
    · rw [if_pos hlt]
      refine List.pairwise_cons.mpr ⟨fun b hb => ?_, h⟩
      rcases List.mem_cons.mp hb with rfl | hb
      · exact hlt
      · exact String.lt_trans hlt (hitem b hb)
    · rw [if_neg hlt]
      by_cases he : name = item.1
      · rw [if_pos he]
        refine List.pairwise_cons.mpr ⟨fun b hb => ?_, hrest⟩
        show name < b.1
        rw [he]
        exact hitem b hb
      · rw [if_neg he]
        refine List.pairwise_cons.mpr ⟨fun b hb => ?_, ih hrest⟩
        rcases mem_putItem hb with rfl | hb
        · exact Std.lt_of_le_of_ne (String.not_lt.mp hlt) fun e => he e.symm
        · exact hitem b hb

theorem increasing_items (st : Store) : Increasing st.items := by
  obtain ⟨bindings⟩ := st
  show Increasing (bindings.foldr (fun b items => putItem b.1 b.2 items) [])
  induction bindings with
  | nil => exact .nil
  | cons b rest ih => exact increasing_putItem b.1 b.2 ih

/-- No two of the items are for the same name. -/
abbrev Distinct (items : List (String × Value)) : Prop := items.Pairwise fun a b => a.1 ≠ b.1

theorem Increasing.distinct {items : List (String × Value)} (h : Increasing items) :
    Distinct items := by
  refine List.Pairwise.imp (fun {a b} hlt he => ?_) h
  rw [he] at hlt
  exact String.lt_irrefl b.1 hlt

/-- Looking a name up finds the first pair if that is for the name, and goes on otherwise. -/
theorem lookup_cons_eq_some_iff {item b : String × Value} {l : List (String × Value)} :
    (b :: l).lookup item.1 = some item.2 ↔
      item = b ∨ item.1 ≠ b.1 ∧ l.lookup item.1 = some item.2 := by
  rw [lookup_cons_eq_ite]
  by_cases he : item.1 = b.1
  · rw [if_pos he, Option.some.injEq, or_iff_left fun h => h.1 he]
    constructor
    · intro hv
      exact Prod.ext he hv.symm
    · rintro rfl
      rfl
  · rw [if_neg he, or_iff_right fun e => he (congrArg Prod.fst e), and_iff_right he]

theorem mem_iff_lookup {items : List (String × Value)} (h : Distinct items)
    {b : String × Value} : b ∈ items ↔ items.lookup b.1 = some b.2 := by
  induction items with
  | nil => simp
  | cons item rest ih =>
    obtain ⟨hitem, hrest⟩ := List.pairwise_cons.mp h
    rw [List.mem_cons, lookup_cons_eq_some_iff, ← ih hrest]
    refine or_congr_right ⟨fun hb => ⟨?_, hb⟩, And.right⟩
    exact (hitem b hb).symm

theorem eq_of_lookup_eq {items items' : List (String × Value)} (h : Increasing items)
    (h' : Increasing items') (hl : ∀ x, items.lookup x = items'.lookup x) : items = items' := by
  have : Std.Irrefl fun a b : String × Value => a.1 < b.1 := ⟨fun a => String.lt_irrefl a.1⟩
  have : Std.Antisymm fun a b : String × Value => a.1 < b.1 :=
    ⟨fun a b hab hba => absurd (String.lt_trans hab hba) (String.lt_irrefl a.1)⟩
  refine List.Pairwise.eq_of_mem_iff h h' fun b => ?_
  rw [mem_iff_lookup h.distinct, mem_iff_lookup h'.distinct, hl]

/-- **Stores are the same mapping if and only if every name has the same value in both.** -/
theorem same_iff_lookup? {st st' : Store} :
    st.same st' = true ↔ ∀ x, st.lookup? x = st'.lookup? x := by
  constructor
  · exact lookup?_eq_of_same
  · intro h
    have hi : st.items = st'.items := by
      refine eq_of_lookup_eq st.increasing_items st'.increasing_items fun x => ?_
      rw [lookup_items, lookup_items, h]
    show (st.items == st'.items) = true
    rw [hi]
    exact beq_self_eq_true _

theorem render_eq_of_same {st st' : Store} (h : st.same st' = true) : st.render = st'.render := by
  have hi : st.items = st'.items := eq_of_beq h
  rw [render, render, hi]

end WhileLang.Store
