import WhileLang.Eval
import WhileLang.Proofs.Store.Items

/-!
# The views of a store

A store can be read in several ways: one name at a time (`lookup`), as the set of its names
(`keys`, `contains`, `size`), as its items, or as its bindings.  This file shows that all of
them describe one mapping, whatever updates have made the store (`views_agree`).

The bindings are the updates, newest first (`bindings_ofItems`).  `latest` goes through them once
and keeps the first binding it meets of each name.  What it keeps are bindings for distinct names
(`distinct_latest`), namely the values of the names (`mem_latest_iff`), and the items are the
same bindings in order (`items_perm_latest`).
-/

namespace WhileLang.Store

variable {st st' : Store} {x : String} {value : Value}

/-! ### Bindings and updates -/

theorem bindings_foldl_update (items : List (String × Value)) (st : Store) :
    (items.foldl (fun st item => st.update item.1 item.2) st).bindings
      = items.reverse ++ st.bindings := by
  induction items generalizing st with
  | nil => rfl
  | cons item rest ih =>
    rw [List.foldl_cons, ih, bindings_update, List.reverse_cons, List.append_assoc]
    rfl

theorem bindings_ofItems (items : List (String × Value)) :
    (ofItems items).bindings = items.reverse := by
  rw [ofItems, bindings_foldl_update]
  exact List.append_nil items.reverse

/-- Every store is made by updates, the oldest binding first. -/
theorem ofItems_reverse_bindings (st : Store) : ofItems st.bindings.reverse = st := by
  have h := bindings_ofItems st.bindings.reverse
  rw [List.reverse_reverse] at h
  exact congrArg Store.mk h

/-! ### The latest bindings -/

/-- The first binding of each name, in the order of the bindings. -/
def latest : List (String × Value) → List (String × Value)
  | [] => []
  | b :: rest => b :: (latest rest).filter fun item => item.1 != b.1

theorem distinct_latest (bindings : List (String × Value)) : Distinct (latest bindings) := by
  induction bindings with
  | nil => exact .nil
  | cons b rest ih =>
    refine List.pairwise_cons.mpr ⟨?_, ih.filter _⟩
    intro item hitem he
    exact bne_iff_ne.mp (List.mem_filter.mp hitem).2 he.symm

theorem mem_latest_iff {bindings : List (String × Value)} {item : String × Value} :
    item ∈ latest bindings ↔ bindings.lookup item.1 = some item.2 := by
  induction bindings with
  | nil => simp [latest]
  | cons b rest ih =>
    rw [latest, List.mem_cons, List.mem_filter, ih, lookup_cons_eq_some_iff, bne_iff_ne, and_comm]

theorem mem_items_iff {item : String × Value} :
    item ∈ st.items ↔ st.lookup? item.1 = some item.2 := by
  rw [mem_iff_lookup st.increasing_items.distinct, lookup_items]

theorem Distinct.nodup {items : List (String × Value)} (h : Distinct items) : items.Nodup :=
  List.Pairwise.imp (fun hne he => hne (congrArg Prod.fst he)) h

/-- The items are the latest bindings, in the order of names. -/
theorem items_perm_latest (st : Store) : st.items.Perm (latest st.bindings) := by
  refine (List.perm_ext_iff_of_nodup st.increasing_items.distinct.nodup
    (distinct_latest st.bindings).nodup).mpr fun item => ?_
  rw [mem_items_iff, mem_latest_iff]
  rfl

/-! ### One name -/

theorem lookup_eq_ok_iff : st.lookup x = .ok value ↔ st.lookup? x = some value := by
  rw [lookup]
  cases st.lookup? x <;> simp

theorem lookup_eq_lookup_iff : st.lookup x = st'.lookup x ↔ st.lookup? x = st'.lookup? x := by
  rw [lookup, lookup]
  cases st.lookup? x <;> cases st'.lookup? x <;> simp

theorem lookup?_eq_some_iff_exists : st.lookup? x = some value ↔
    ∃ newer older, st.bindings = newer ++ (x, value) :: older ∧ ¬x ∈ newer.map Prod.fst := by
  have hnewer (newer : List (String × Value)) :
      (∀ b ∈ newer, (x != b.1) = true) ↔ ¬x ∈ newer.map Prod.fst := by
    simp only [bne_iff_ne, List.mem_map, not_exists, not_and, ne_comm, ne_eq]
  simp only [lookup?, List.lookup_eq_some_iff, hnewer]

theorem mem_keys_iff_exists : x ∈ st.keys ↔ ∃ value, st.lookup x = .ok value := by
  rw [← lookup?_isSome_iff_mem_keys, Option.isSome_iff_exists]
  simp only [lookup_eq_ok_iff]

theorem contains_iff_mem_keys : st.contains x = true ↔ x ∈ st.keys := by
  simp [contains, keys]

/-! ### Counting and copying -/

theorem names_keys (st : Store) : st.keys.names = st.items.map Prod.fst := by
  refine NameSet.eq_of_pairwise_of_mem_iff st.keys.sorted
    (List.pairwise_map.mpr st.increasing_items) fun x => ?_
  rw [← NameSet.mem_def, mem_keys_iff_exists, List.mem_map]
  constructor
  · rintro ⟨value, hvalue⟩
    exact ⟨(x, value), mem_items_iff.mpr (lookup_eq_ok_iff.mp hvalue), rfl⟩
  · rintro ⟨item, hitem, rfl⟩
    exact ⟨item.2, lookup_eq_ok_iff.mpr (mem_items_iff.mp hitem)⟩

theorem size_eq_length_items (st : Store) : st.size = st.items.length := by
  rw [size, NameSet.size, names_keys, List.length_map]

/-- Items for distinct names bind the same in any order, in particular from the other end. -/
theorem lookup_reverse {items : List (String × Value)} (h : Distinct items) (x : String) :
    items.reverse.lookup x = items.lookup x := by
  have hrev : Distinct items.reverse := List.pairwise_reverse.mpr (h.imp Ne.symm)
  refine Option.ext fun value => ?_
  rw [← mem_iff_lookup hrev (b := (x, value)), ← mem_iff_lookup h (b := (x, value)),
    List.mem_reverse]

theorem same_ofItems_items (st : Store) : (ofItems st.items).same st = true := by
  refine same_iff_lookup?.mpr fun x => ?_
  rw [lookup?, bindings_ofItems, lookup_reverse st.increasing_items.distinct, lookup_items]

/-- **All views of a store describe one mapping.**  A store is made by its bindings as updates.
Its items are the latest binding of each name, in strictly increasing order of names, so that
putting them in order never needs their values.  An item is what looking its name up gives, and
that is the newest binding of the name; the names that can be looked up are the keys, and there
are as many as items.  A store made of the items is the same mapping with nothing shadowed, and
stores are the same exactly if looking up gives the same in both, whatever their bindings. -/
theorem views_agree (st : Store) :
    ofItems st.bindings.reverse = st ∧
    (Increasing st.items ∧ st.items.Perm (latest st.bindings) ∧ Distinct (latest st.bindings)) ∧
    (∀ x value, (x, value) ∈ st.items ↔ st.lookup x = .ok value) ∧
    (∀ x value, st.lookup x = .ok value ↔
      ∃ newer older, st.bindings = newer ++ (x, value) :: older ∧ ¬x ∈ newer.map Prod.fst) ∧
    (∀ x, (st.contains x = true ↔ x ∈ st.keys) ∧
      (x ∈ st.keys ↔ ∃ value, st.lookup x = .ok value)) ∧
    st.size = st.items.length ∧
    ((ofItems st.items).same st = true ∧ (ofItems st.items).bindings.length = st.size) ∧
    ∀ st' : Store, st.same st' = true ↔ ∀ x, st.lookup x = st'.lookup x := by
  refine ⟨st.ofItems_reverse_bindings,
    ⟨st.increasing_items, st.items_perm_latest, distinct_latest st.bindings⟩, ?_, ?_,
    fun x => ⟨contains_iff_mem_keys, mem_keys_iff_exists⟩, st.size_eq_length_items,
    ⟨st.same_ofItems_items, ?_⟩, ?_⟩
  · intro x value
    rw [mem_items_iff, lookup_eq_ok_iff]
  · intro x value
    rw [lookup_eq_ok_iff, lookup?_eq_some_iff_exists]
  · rw [bindings_ofItems, List.length_reverse, size_eq_length_items]
  · intro st'
    rw [same_iff_lookup?]
    exact forall_congr' fun x => lookup_eq_lookup_iff.symm

end WhileLang.Store
