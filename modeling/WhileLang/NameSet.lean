/-!
# Sets of names

The analyses and the stores of this library speak of finite sets of variable
names, and every answer lists such a set in the order of code points.  A
`NameSet` is the list itself: strictly increasing, so that two sets with the same
members are equal (`ext`) and the order in which they were built cannot show.

Each operation is pinned down by its members: `mem_insert`, `mem_union`,
`mem_inter`, `mem_diff`, `mem_ofList`.
-/

namespace WhileLang

/-- A finite set of names, held as its members in strictly increasing order. -/
structure NameSet where
  names : List String
  sorted : names.Pairwise (· < ·)

namespace NameSet

instance : Membership String NameSet := ⟨fun s x => x ∈ s.names⟩

theorem mem_def {x : String} {s : NameSet} : x ∈ s ↔ x ∈ s.names := Iff.rfl

instance (x : String) (s : NameSet) : Decidable (x ∈ s) :=
  inferInstanceAs (Decidable (x ∈ s.names))

theorem eq_of_names {s t : NameSet} (h : s.names = t.names) : s = t := by
  cases s; cases t; cases h; rfl

instance : DecidableEq NameSet := fun s t =>
  if h : s.names = t.names then .isTrue (eq_of_names h)
  else .isFalse fun e => h (congrArg names e)

/-! ### Increasing lists -/

/-- Two increasing lists with the same members are the same list. -/
theorem eq_of_pairwise_of_mem_iff : ∀ {l₁ l₂ : List String},
    l₁.Pairwise (· < ·) → l₂.Pairwise (· < ·) → (∀ x, x ∈ l₁ ↔ x ∈ l₂) → l₁ = l₂
  | [], [], _, _, _ => rfl
  | [], b :: _, _, _, h => by have := (h b).2 (by simp); simp at this
  | a :: _, [], _, _, h => by have := (h a).1 (by simp); simp at this
  | a :: l₁, b :: l₂, h₁, h₂, h => by
    obtain ⟨ha, hl₁⟩ := List.pairwise_cons.1 h₁
    obtain ⟨hb, hl₂⟩ := List.pairwise_cons.1 h₂
    have hab : a = b := by
      rcases List.mem_cons.1 ((h a).1 (by simp)) with e | hm
      · exact e
      · rcases List.mem_cons.1 ((h b).2 (by simp)) with e | hm'
        · exact e.symm
        · exact absurd (String.lt_trans (ha b hm') (hb a hm)) (String.lt_irrefl a)
    subst hab
    have hl : l₁ = l₂ := by
      refine eq_of_pairwise_of_mem_iff hl₁ hl₂ fun x => ⟨fun hx => ?_, fun hx => ?_⟩
      · rcases List.mem_cons.1 ((h x).1 (List.mem_cons_of_mem _ hx)) with e | hm
        · exact absurd (e ▸ ha x hx) (String.lt_irrefl _)
        · exact hm
      · rcases List.mem_cons.1 ((h x).2 (List.mem_cons_of_mem _ hx)) with e | hm
        · exact absurd (e ▸ hb x hx) (String.lt_irrefl _)
        · exact hm
    rw [hl]

theorem ext {s t : NameSet} (h : ∀ x, x ∈ s ↔ x ∈ t) : s = t :=
  eq_of_names (eq_of_pairwise_of_mem_iff s.sorted t.sorted h)

/-- Puts `x` in its place in an increasing list that may hold it already. -/
def insertInto (x : String) : List String → List String
  | [] => [x]
  | y :: ys =>
    if x < y then x :: y :: ys
    else if x = y then y :: ys
    else y :: insertInto x ys

theorem mem_insertInto {x y : String} : ∀ {l : List String},
    y ∈ insertInto x l ↔ y = x ∨ y ∈ l
  | [] => by simp [insertInto]
  | z :: l => by
    unfold insertInto
    split
    · simp
    · split
      · next e => subst e; simp
      · simp only [List.mem_cons, mem_insertInto (l := l)]
        constructor
        · rintro (h | h | h) <;> simp [h]
        · rintro (h | h | h) <;> simp [h]

theorem pairwise_insertInto (x : String) : ∀ {l : List String},
    l.Pairwise (· < ·) → (insertInto x l).Pairwise (· < ·)
  | [], _ => by simp [insertInto]
  | y :: l, h => by
    obtain ⟨hy, hl⟩ := List.pairwise_cons.1 h
    unfold insertInto
    split
    · next hxy =>
      refine List.pairwise_cons.2 ⟨fun z hz => ?_, h⟩
      rcases List.mem_cons.1 hz with rfl | hz
      · exact hxy
      · exact String.lt_trans hxy (hy z hz)
    · split
      · exact h
      · next hxy hne =>
        refine List.pairwise_cons.2 ⟨fun z hz => ?_, pairwise_insertInto x hl⟩
        rcases mem_insertInto.1 hz with rfl | hz
        · exact Std.lt_of_le_of_ne (String.not_lt.1 hxy) (fun e => hne e.symm)
        · exact hy z hz

/-! ### The operations -/

def empty : NameSet := ⟨[], .nil⟩

instance : EmptyCollection NameSet := ⟨empty⟩

instance : Inhabited NameSet := ⟨∅⟩

def insert (x : String) (s : NameSet) : NameSet :=
  ⟨insertInto x s.names, pairwise_insertInto x s.sorted⟩

def singleton (x : String) : NameSet := insert x ∅

def ofList (l : List String) : NameSet := l.foldr insert ∅

def union (s t : NameSet) : NameSet := s.names.foldr insert t

instance : Union NameSet := ⟨union⟩

def filter (p : String → Bool) (s : NameSet) : NameSet :=
  ⟨s.names.filter p, s.sorted.sublist List.filter_sublist⟩

def inter (s t : NameSet) : NameSet := s.filter fun x => decide (x ∈ t)

instance : Inter NameSet := ⟨inter⟩

def diff (s t : NameSet) : NameSet := s.filter fun x => !decide (x ∈ t)

instance : SDiff NameSet := ⟨diff⟩

def isEmpty (s : NameSet) : Bool := s.names.isEmpty

def size (s : NameSet) : Nat := s.names.length

/-! ### Members -/

@[simp] theorem not_mem_empty (x : String) : ¬x ∈ (∅ : NameSet) := by
  intro h; exact absurd (mem_def.1 h) (List.not_mem_nil)

@[simp] theorem mem_insert {x y : String} {s : NameSet} : y ∈ s.insert x ↔ y = x ∨ y ∈ s :=
  mem_insertInto

@[simp] theorem mem_singleton {x y : String} : y ∈ singleton x ↔ y = x := by
  simp [singleton]

theorem mem_foldr_insert {y : String} {s : NameSet} : ∀ {l : List String},
    y ∈ l.foldr insert s ↔ y ∈ l ∨ y ∈ s
  | [] => by simp
  | x :: l => by simp [mem_foldr_insert (l := l), or_assoc]

@[simp] theorem mem_ofList {y : String} {l : List String} : y ∈ ofList l ↔ y ∈ l := by
  simp [ofList, mem_foldr_insert]

@[simp] theorem mem_union {y : String} {s t : NameSet} : y ∈ s ∪ t ↔ y ∈ s ∨ y ∈ t :=
  mem_foldr_insert

@[simp] theorem mem_filter {y : String} {p : String → Bool} {s : NameSet} :
    y ∈ s.filter p ↔ y ∈ s ∧ p y :=
  List.mem_filter

@[simp] theorem mem_inter {y : String} {s t : NameSet} : y ∈ s ∩ t ↔ y ∈ s ∧ y ∈ t := by
  show y ∈ s.filter _ ↔ _
  simp

@[simp] theorem mem_diff {y : String} {s t : NameSet} : y ∈ s \ t ↔ y ∈ s ∧ ¬y ∈ t := by
  show y ∈ s.filter _ ↔ _
  simp

theorem isEmpty_iff {s : NameSet} : s.isEmpty = true ↔ ∀ x, ¬x ∈ s := by
  simp only [isEmpty, List.isEmpty_iff, mem_def]
  exact List.eq_nil_iff_forall_not_mem

end NameSet

end WhileLang
