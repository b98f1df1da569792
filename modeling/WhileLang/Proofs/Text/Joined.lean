/-!
# Texts put together

The parts of a text can be told apart if each ends where something else begins.  A run of
characters of one class ends at the first character of another class (`append_inj_of_class`).
Items that are joined with commas, up to a closing character, are found again if each item can be
told from what follows it in such a list (`joined_inj`).
-/

namespace WhileLang

/-! ### Runs of a class -/

section Class

variable {p : Char → Bool} {cs cs' rest rest' : List Char}

theorem takeWhile_append_of_head (hp : ∀ c ∈ cs, p c = true)
    (hrest : ∀ c, rest.head? = some c → p c = false) : (cs ++ rest).takeWhile p = cs := by
  rw [List.takeWhile_append_of_pos hp]
  cases rest with
  | nil => exact List.append_nil cs
  | cons c rest =>
    rw [List.takeWhile_cons_of_neg (by rw [hrest c rfl]; exact Bool.false_ne_true),
      List.append_nil]

theorem append_inj_of_class (hp : ∀ c ∈ cs, p c = true) (hp' : ∀ c ∈ cs', p c = true)
    (hrest : ∀ c, rest.head? = some c → p c = false)
    (hrest' : ∀ c, rest'.head? = some c → p c = false) (h : cs ++ rest = cs' ++ rest') :
    cs = cs' ∧ rest = rest' := by
  have hcs : cs = cs' := by
    rw [← takeWhile_append_of_head hp hrest, h, takeWhile_append_of_head hp' hrest']
  subst hcs
  exact ⟨rfl, List.append_cancel_left h⟩

end Class

/-! ### Joined items -/

section Joined

variable {α : Type} {text : α → List Char} {close : Char} {items items' : List α}
  {rest rest' : List Char}

/-- Items behind another one, each with a comma in front. -/
def following (text : α → List Char) (items : List α) : List Char :=
  items.flatMap fun item => ',' :: ' ' :: text item

theorem following_cons (text : α → List Char) (item : α) (items : List α) :
    following text (item :: items) = ',' :: ' ' :: (text item ++ following text items) := rfl

theorem intercalate_map_cons (text : α → List Char) (item : α) (items : List α) :
    [',', ' '].intercalate ((item :: items).map text) = text item ++ following text items := by
  induction items generalizing item with
  | nil => simp [following]
  | cons next items ih =>
    rw [List.map_cons, List.map_cons, List.intercalate_cons_cons, ← List.map_cons, ih next,
      following_cons, List.append_assoc]
    rfl

/-- The characters end an item of a list: a comma comes, or the list is closed. -/
def EndsItem (close : Char) (rest : List Char) : Prop :=
  rest.head? = some ',' ∨ rest.head? = some close

/-- Each of these items can be told from what follows it, wherever an item may end, and none of
them begins like the end of the list. -/
structure Delimited (P : α → Prop) (text : α → List Char) (close : Char) : Prop where
  close_ne : close ≠ ','
  begins : ∀ item, P item → ∃ c cs, text item = c :: cs ∧ c ≠ close
  inj : ∀ item item', P item → P item' → ∀ rest rest', EndsItem close rest → EndsItem close rest' →
    text item ++ rest = text item' ++ rest' → item = item' ∧ rest = rest'

theorem endsItem_following (text : α → List Char) (close : Char) (items : List α)
    (rest : List Char) : EndsItem close (following text items ++ close :: rest) := by
  cases items with
  | nil => exact Or.inr rfl
  | cons item items => exact Or.inl rfl

theorem following_inj {P : α → Prop} (hd : Delimited P text close)
    (h : ∀ item ∈ items, P item) (h' : ∀ item ∈ items', P item)
    (ht : following text items ++ close :: rest = following text items' ++ close :: rest') :
    items = items' ∧ rest = rest' := by
  induction items generalizing items' with
  | nil =>
    cases items' with
    | nil => exact ⟨rfl, (List.cons.inj ht).2⟩
    | cons item' items' => exact absurd (List.cons.inj ht).1 hd.close_ne
  | cons item items ih =>
    cases items' with
    | nil => exact absurd (List.cons.inj ht).1.symm hd.close_ne
    | cons item' items' =>
      obtain ⟨hitem, hitems⟩ := List.forall_mem_cons.mp h
      obtain ⟨hitem', hitems'⟩ := List.forall_mem_cons.mp h'
      rw [following_cons, following_cons] at ht
      have hbehind := (List.cons.inj (List.cons.inj ht).2).2
      rw [List.append_eq, List.append_eq, List.append_assoc, List.append_assoc] at hbehind
      obtain ⟨rfl, hfollowing⟩ := hd.inj item item' hitem hitem' _ _
        (endsItem_following text close items rest) (endsItem_following text close items' rest')
        hbehind
      obtain ⟨rfl, hrest⟩ := ih hitems hitems' hfollowing
      exact ⟨rfl, hrest⟩

theorem joined_inj {P : α → Prop} (hd : Delimited P text close)
    (h : ∀ item ∈ items, P item) (h' : ∀ item ∈ items', P item)
    (ht : [',', ' '].intercalate (items.map text) ++ close :: rest =
      [',', ' '].intercalate (items'.map text) ++ close :: rest') :
    items = items' ∧ rest = rest' := by
  have hopen : ∀ item items tail tail', P item →
      close :: tail ≠ [',', ' '].intercalate ((item :: items).map text) ++ tail' := by
    intro item items tail tail' hitem he
    obtain ⟨c, cs, hc, hne⟩ := hd.begins item hitem
    rw [intercalate_map_cons, hc] at he
    exact hne (List.cons.inj he).1.symm
  cases items with
  | nil =>
    cases items' with
    | nil => exact ⟨rfl, (List.cons.inj ht).2⟩
    | cons item' items' => exact absurd ht (hopen item' items' _ _ (h' item' List.mem_cons_self))
  | cons item items =>
    cases items' with
    | nil => exact absurd ht.symm (hopen item items _ _ (h item List.mem_cons_self))
    | cons item' items' =>
      -- with a comma in front of the first item too, both are items that follow another one
      rw [intercalate_map_cons, intercalate_map_cons] at ht
      refine following_inj hd h h' ?_
      rw [following_cons, following_cons, List.cons_append, List.cons_append, List.cons_append,
        List.cons_append, ht]

end Joined

end WhileLang
