import WhileLang.Proofs.Printing.RoundTrip
import WhileLang.Proofs.Printing.Value
import WhileLang.Proofs.Run.Frame
import WhileLang.Proofs.Store.Views
import WhileLang.Proofs.Text.Joined

/-!
# The text of a store

A store is printed as its items with commas between them.  A name in capitals ends at the colon,
and a value holds neither commas nor braces, so the items can be told from what follows them
(`delimited_itemText`).  Hence two stores with such names are printed alike only if they are the
same mapping (`same_of_render_eq`).  A program that has been read from a text binds no other names
(`named_of_run`).
-/

namespace WhileLang

theorem isUpper_of_isName {name : String} (h : isName name = true) :
    ∀ c ∈ name.toList, c.isUpper = true :=
  List.all_eq_true.mp (Bool.and_eq_true_iff.mp h).2

theorem exists_toList_of_isName {name : String} (h : isName name = true) :
    ∃ c cs, name.toList = c :: cs := by
  refine List.exists_cons_of_ne_nil fun hnil => ?_
  have hne := (Bool.and_eq_true_iff.mp h).1
  rw [String.toList_injective (hnil.trans String.toList_empty.symm)] at hne
  exact absurd hne (by decide)

namespace Store

/-! ### Items -/

def itemText (item : String × Value) : List Char :=
  item.1.toList ++ (':' :: ' ' :: item.2.render.toList)

/-- Whether a character may stand in the text of a value. -/
def isValueChar (c : Char) : Bool := c != ',' && c != '\x7d'

theorem isValueChar_of_mem_render {v : Value} :
    ∀ c ∈ v.render.toList, isValueChar c = true := by
  intro c hc
  rw [isValueChar, Bool.and_eq_true, bne_iff_ne, bne_iff_ne]
  constructor
  · rintro rfl
    exact Value.not_mem_render (Or.inl rfl) v hc
  · rintro rfl
    exact Value.not_mem_render (Or.inr rfl) v hc

theorem isValueChar_of_endsItem {rest : List Char} (h : EndsItem '\x7d' rest) :
    ∀ c, rest.head? = some c → isValueChar c = false := by
  intro c hc
  rcases h with h | h
  · rw [h] at hc
    cases hc
    decide
  · rw [h] at hc
    cases hc
    decide

/-- The name of an item ends at the colon, and its value at a comma or at the brace. -/
theorem delimited_itemText :
    Delimited (fun item => isName item.1 = true) itemText '\x7d' where
  close_ne := by decide
  begins := by
    rintro ⟨name, value⟩ h
    obtain ⟨c, cs, hname⟩ := exists_toList_of_isName h
    refine ⟨c, cs ++ (':' :: ' ' :: value.render.toList), by rw [itemText, hname]; rfl, ?_⟩
    rintro rfl
    have hupper := isUpper_of_isName h '\x7d' (by rw [hname]; exact List.mem_cons_self)
    exact absurd hupper (by decide)
  inj := by
    rintro ⟨name, value⟩ ⟨name', value'⟩ h h' rest rest' hrest hrest' ht
    have hcolon (cs : List Char) : ∀ c, (':' :: cs).head? = some c → c.isUpper = false := by
      rintro _ ⟨⟩
      rfl
    rw [itemText, itemText, List.append_assoc, List.append_assoc] at ht
    obtain ⟨hname, hbehind⟩ := append_inj_of_class (isUpper_of_isName h) (isUpper_of_isName h')
      (hcolon _) (hcolon _) ht
    obtain ⟨hvalue, htail⟩ := append_inj_of_class isValueChar_of_mem_render
      isValueChar_of_mem_render (isValueChar_of_endsItem hrest) (isValueChar_of_endsItem hrest')
      (List.cons.inj (List.cons.inj hbehind).2).2
    exact ⟨Prod.ext (String.toList_injective hname)
      (Value.render_inj.mp (String.toList_injective hvalue)), htail⟩

/-! ### Stores -/

/-- Every name that the store has bound is a word in capitals. -/
def Named (st : Store) : Prop := ∀ b ∈ st.bindings, isName b.1 = true

instance (st : Store) : Decidable st.Named :=
  inferInstanceAs (Decidable (∀ b ∈ st.bindings, isName b.1 = true))

theorem Named.of_mem_items {st : Store} (h : st.Named) :
    ∀ item ∈ st.items, isName item.1 = true := by
  intro item hitem
  obtain ⟨newer, older, hst, -⟩ := lookup?_eq_some_iff_exists.mp (mem_items_iff.mp hitem)
  refine h item ?_
  rw [hst]
  simp

theorem toList_render (st : Store) :
    st.render.toList = '\x7b' :: ([',', ' '].intercalate (st.items.map itemText) ++ ['\x7d']) := by
  have htexts : (st.items.map fun item => item.1 ++ ": " ++ item.2.render).map String.toList =
      st.items.map itemText := by
    simp [itemText]
  rw [render, String.toList_append, String.toList_append, String.toList_intercalate, htexts]
  rfl

theorem same_of_render_eq {st st' : Store} (h : st.Named) (h' : st'.Named)
    (ht : st.render = st'.render) : st.same st' = true := by
  have htext := congrArg String.toList ht
  rw [toList_render, toList_render] at htext
  have hitems : st.items = st'.items :=
    (joined_inj delimited_itemText h.of_mem_items h'.of_mem_items (List.cons.inj htext).2).1
  show (st.items == st'.items) = true
  rw [hitems]
  exact beq_self_eq_true _

end Store

/-! ### Names of programs -/

theorem Stmt.wellFormed_of_within {s t : Stmt} (h : t.Within s) (hs : s.wellFormed = true) :
    t.wellFormed = true := by
  induction h with
  | refl => exact hs
  | yes _ ih => exact ih (Bool.and_eq_true_iff.mp (Bool.and_eq_true_iff.mp hs).1).2
  | no _ ih => exact ih (Bool.and_eq_true_iff.mp hs).2
  | body _ ih => exact ih (Bool.and_eq_true_iff.mp hs).2
  | first _ ih => exact ih (Bool.and_eq_true_iff.mp hs).1
  | second _ ih => exact ih (Bool.and_eq_true_iff.mp hs).2

/-- What a well-formed program binds are words in capitals. -/
theorem Stmt.named_of_run {s : Stmt} {n : Nat} {st st' : Store} (hs : s.wellFormed = true)
    (h : s.run n st = some (.finished st')) (hst : st.Named) : st'.Named := by
  obtain ⟨made, rfl, hmade⟩ := (runs_iff_run.mpr h).exists_prepend
  intro b hb
  rw [Store.bindings_prepend, List.mem_append] at hb
  rcases hb with hb | hb
  · obtain ⟨t, ht, expr, hassign⟩ := hmade b hb
    obtain rfl := List.mem_singleton.mp ht
    exact (Bool.and_eq_true_iff.mp (wellFormed_of_within hassign hs)).1
  · exact hst b hb

/-- **The text of a store determines the store.**  Stores whose names are words in capitals are
printed alike if and only if they are the same mapping.  Values that differ are never printed
alike, whether they are integers, booleans or one of each; stores with different names are
not either.  The names are such words in every store that a program read from a text makes of
one where they are. -/
theorem Store.render_exact :
    (∀ st st' : Store, st.Named → st'.Named →
      (st.render = st'.render ↔ st.same st' = true)) ∧
    (∀ v w : Value, v.render = w.render ↔ v = w) ∧
    (∀ st st' : Store, st.Named → st'.Named → st.keys ≠ st'.keys → st.render ≠ st'.render) ∧
    ∀ text p n st st', Stmt.parse text = .ok p → p.run n st = some (.finished st') →
      st.Named → st'.Named := by
  refine ⟨fun st st' h h' => ⟨same_of_render_eq h h', render_eq_of_same⟩,
    fun v w => Value.render_inj, fun st st' h h' hkeys ht => ?_,
    fun text p n st st' hp hrun hst => Stmt.named_of_run (Stmt.wellFormed_of_parse hp) hrun hst⟩
  have hsame := same_iff_lookup?.mp (same_of_render_eq h h' ht)
  refine hkeys (NameSet.ext fun x => ?_)
  rw [← lookup?_isSome_iff_mem_keys, ← lookup?_isSome_iff_mem_keys, hsame]

/-- What was bound first is shadowed, and the order of the names is not that of the bindings. -/
theorem render_exact_shadowed :
    (Store.Named ⟨[("X", .int (-12)), ("AB", .bool true), ("X", .int 1)]⟩ ∧
      Store.Named ⟨[("AB", .bool true), ("X", .int (-12))]⟩ ∧
      Store.render ⟨[("X", .int (-12)), ("AB", .bool true), ("X", .int 1)]⟩ =
        Store.render ⟨[("AB", .bool true), ("X", .int (-12))]⟩) ∧
    (Store.keys ⟨[("A", .bool true), ("X", .int (-12))]⟩ ≠
        Store.keys ⟨[("AB", .bool true), ("X", .int (-12))]⟩ ∧
      Store.render ⟨[("A", .bool true), ("X", .int (-12))]⟩ ≠
        Store.render ⟨[("AB", .bool true), ("X", .int (-12))]⟩) ∧
    Stmt.parse "X := (1 - 2) - 3; skip" = .ok difference ∧
      difference.run 3 ∅ = some (.finished ⟨[("X", .int (-4))]⟩) ∧
      Store.Named ⟨[("X", .int (-4))]⟩ := by
  obtain ⟨hrender, -, hkeys, hparsed⟩ := Store.render_exact
  have hrun : difference.run 3 ∅ = some (.finished ⟨[("X", .int (-4))]⟩) := by decide
  refine ⟨⟨by decide, by decide, (hrender _ _ (by decide) (by decide)).mpr (by decide)⟩,
    ⟨by decide, hkeys _ _ (by decide) (by decide) (by decide)⟩,
    parse_difference, hrun, ?_⟩
  exact hparsed _ difference 3 ∅ _ parse_difference hrun (by decide)

end WhileLang
