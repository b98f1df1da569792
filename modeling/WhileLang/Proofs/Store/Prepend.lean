import WhileLang.Store

/-!
# Bindings in front of a store

A run never takes a binding away: all it does to its store is to put bindings in front.
`Store.prepend` puts a whole list of them there, the newest first, and this file says what
each view of a store makes of it.

`lookup?_prepend` and `mem_keys_prepend` read the new bindings first and the old store
behind them.  `same_prepend` says that two stores with equal items still have equal items
when the same bindings are put in front of both, and `lookup?_eq_of_same` that equal items
mean equal values of every name.
-/

namespace WhileLang.Store

/-- The store with some bindings, newest first, put in front. -/
def prepend (st : Store) (made : List (String × Value)) : Store := ⟨made ++ st.bindings⟩

@[simp] theorem bindings_prepend (st : Store) (made : List (String × Value)) :
    (st.prepend made).bindings = made ++ st.bindings := rfl

@[simp] theorem prepend_nil (st : Store) : st.prepend [] = st := rfl

theorem prepend_prepend (st : Store) (made later : List (String × Value)) :
    (st.prepend made).prepend later = st.prepend (later ++ made) := by
  show Store.mk (later ++ (made ++ st.bindings)) = Store.mk (later ++ made ++ st.bindings)
  rw [List.append_assoc]

theorem empty_prepend (st : Store) : (∅ : Store).prepend st.bindings = st := by
  show Store.mk (st.bindings ++ []) = st
  rw [List.append_nil]

/-! ### Names -/

theorem lookup?_prepend (st : Store) (made : List (String × Value)) (x : String) :
    (st.prepend made).lookup? x = (made.lookup x).or (st.lookup? x) := by
  show (made ++ st.bindings).lookup x = _
  rw [List.lookup_append]
  rfl

theorem lookup?_prepend_of_not_mem {st : Store} {made : List (String × Value)} {x : String}
    (hx : ¬x ∈ made.map Prod.fst) : (st.prepend made).lookup? x = st.lookup? x := by
  have hnone : made.lookup x = none := by
    rw [List.lookup_eq_none_iff]
    intro b hb
    have hne : x ≠ b.1 := fun e => hx (e ▸ List.mem_map_of_mem hb)
    simpa using hne
  rw [lookup?_prepend, hnone, Option.none_or]

/-- A name among the new bindings has a value, and the old store has no say in it. -/
theorem lookup?_prepend_of_mem {made : List (String × Value)} {x : String}
    (hx : x ∈ made.map Prod.fst) :
    ∃ value, ∀ st : Store, (st.prepend made).lookup? x = some value := by
  cases hl : made.lookup x with
  | some value => exact ⟨value, fun st => by rw [lookup?_prepend, hl, Option.some_or]⟩
  | none =>
    obtain ⟨b, hb, he⟩ := List.mem_map.mp hx
    have hne := List.lookup_eq_none_iff.mp hl b hb
    rw [he] at hne
    exact absurd hne (by simp)

theorem mem_keys_prepend {st : Store} {made : List (String × Value)} {x : String} :
    x ∈ (st.prepend made).keys ↔ x ∈ made.map Prod.fst ∨ x ∈ st.keys := by
  simp [keys]

theorem not_mem_keys_iff {st : Store} {x : String} : ¬x ∈ st.keys ↔ st.lookup? x = none := by
  rw [← lookup?_isSome_iff_mem_keys, Bool.not_eq_true, Option.isSome_eq_false_iff,
    Option.isNone_iff_eq_none]

/-! ### Items -/

theorem items_prepend (st : Store) (made : List (String × Value)) :
    (st.prepend made).items = made.foldr (fun b items => putItem b.1 b.2 items) st.items :=
  List.foldr_append

theorem same_prepend {st st' : Store} (h : st.same st' = true) (made : List (String × Value)) :
    (st.prepend made).same (st'.prepend made) = true := by
  have hi : st.items = st'.items := eq_of_beq h
  show ((st.prepend made).items == (st'.prepend made).items) = true
  rw [items_prepend, items_prepend, hi]
  exact beq_self_eq_true _

theorem lookup_cons_eq_ite (x : String) (b : String × Value) (l : List (String × Value)) :
    (b :: l).lookup x = if x = b.1 then some b.2 else l.lookup x := by
  by_cases hx : x = b.1
  · rw [if_pos hx, List.lookup_cons, beq_iff_eq.mpr hx]
  · rw [if_neg hx, List.lookup_cons, beq_eq_false_iff_ne.mpr hx]

theorem lookup_putItem (name x : String) (value : Value) (l : List (String × Value)) :
    (putItem name value l).lookup x = if x = name then some value else l.lookup x := by
  induction l with
  | nil => exact lookup_cons_eq_ite x (name, value) []
  | cons item rest ih =>
    rw [putItem]
    by_cases hlt : name < item.1
    · rw [if_pos hlt, lookup_cons_eq_ite]
    · rw [if_neg hlt]
      by_cases he : name = item.1
      · rw [if_pos he, lookup_cons_eq_ite, lookup_cons_eq_ite, ← he]
        by_cases hx : x = name
        · rw [if_pos hx, if_pos hx]
        · rw [if_neg hx, if_neg hx, if_neg hx]
      · rw [if_neg he, lookup_cons_eq_ite, lookup_cons_eq_ite, ih]
        by_cases hx : x = item.1
        · have hne : x ≠ name := fun e => he (e.symm.trans hx)
          rw [if_pos hx, if_pos hx, if_neg hne]
        · rw [if_neg hx, if_neg hx]

theorem lookup_items (st : Store) (x : String) : st.items.lookup x = st.lookup? x := by
  obtain ⟨bindings⟩ := st
  show (bindings.foldr (fun b items => putItem b.1 b.2 items) []).lookup x = bindings.lookup x
  induction bindings with
  | nil => rfl
  | cons b rest ih => rw [List.foldr_cons, lookup_putItem, ih, lookup_cons_eq_ite]

theorem lookup?_eq_of_same {st st' : Store} (h : st.same st' = true) (x : String) :
    st.lookup? x = st'.lookup? x := by
  have hi : st.items = st'.items := eq_of_beq h
  rw [← lookup_items, ← lookup_items, hi]

end WhileLang.Store
