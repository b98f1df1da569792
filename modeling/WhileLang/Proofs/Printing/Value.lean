import WhileLang.Operator

/-!
# The texts of values

A value can be told from its text as a program writes it (`Value.render_inj`), and from the text
that names its constructor (`Value.debug_inj`).  An integer is written with digits and a minus
sign only, so it is not taken for a boolean, and neither a comma nor a brace is in a value.
-/

namespace WhileLang

/-- An integer is written with digits and a minus sign. -/
theorem isDigit_of_mem_repr {n : Int} {c : Char} (h : c ∈ n.repr.toList) :
    c = '-' ∨ c.isDigit = true := by
  have hdigit (m : Nat) (hc : c ∈ m.repr.toList) : c.isDigit = true := by
    rw [Nat.toList_repr] at hc
    exact Nat.isDigit_of_mem_toDigits (by decide) (by decide) hc
  rw [Int.repr_eq_if] at h
  by_cases hn : 0 ≤ n
  · rw [if_pos hn] at h
    exact Or.inr (hdigit _ h)
  · rw [if_neg hn, String.toList_append, List.mem_append] at h
    rcases h with h | h
    · exact Or.inl (List.mem_singleton.mp h)
    · exact Or.inr (hdigit _ h)

theorem int_repr_inj {m n : Int} (h : m.repr = n.repr) : m = n := by
  have hnat {i j : Nat} (hr : i.repr = j.repr) : i = j := by
    have hdigits : Nat.toDigits 10 i = Nat.toDigits 10 j := by
      rw [← Nat.toList_repr, ← Nat.toList_repr, hr]
    calc i = Nat.ofDigitChars 10 (Nat.toDigits 10 i) 0 := Nat.ofDigitChars_ten_toDigits.symm
      _ = j := by rw [hdigits, Nat.ofDigitChars_ten_toDigits]
  -- only a negative integer begins with the sign
  have hsign {i j : Nat} (hr : i.repr = "-" ++ j.repr) : False := by
    have hmem : '-' ∈ i.repr.toList := by simp [hr]
    rw [Nat.toList_repr] at hmem
    exact absurd (Nat.isDigit_of_mem_toDigits (by decide) (by decide) hmem) (by decide)
  rw [Int.repr_eq_if, Int.repr_eq_if] at h
  by_cases hm : 0 ≤ m
  · by_cases hn : 0 ≤ n
    · rw [if_pos hm, if_pos hn] at h
      have htoNat := hnat h
      omega
    · rw [if_pos hm, if_neg hn] at h
      exact (hsign h).elim
  · by_cases hn : 0 ≤ n
    · rw [if_neg hm, if_pos hn] at h
      exact (hsign h.symm).elim
    · rw [if_neg hm, if_neg hn, String.append_right_inj] at h
      have htoNat := hnat h
      omega

namespace Value

/-- A text tells values apart if it tells integers apart, booleans, and the two sorts. -/
theorem text_inj {text : Value → String} (hint : ∀ m n, text (int m) = text (int n) → m = n)
    (hbool : ∀ b c, text (bool b) = text (bool c) → b = c)
    (hsort : ∀ n b, text (int n) ≠ text (bool b)) {v w : Value} : text v = text w ↔ v = w := by
  constructor
  · intro h
    cases v with
    | int m =>
      cases w with
      | int n => rw [hint m n h]
      | bool c => exact absurd h (hsort m c)
    | bool b =>
      cases w with
      | int n => exact absurd h.symm (hsort n b)
      | bool c => rw [hbool b c h]
  · rintro rfl
    rfl

theorem render_inj {v w : Value} : v.render = w.render ↔ v = w := by
  refine text_inj (fun m n h => int_repr_inj h) (by decide) (fun n b h => ?_)
  -- both words for booleans have an `e` in them
  have he : 'e' ∈ (bool b).render.toList := by cases b <;> decide
  rw [← h] at he
  rcases isDigit_of_mem_repr he with he | he
  · exact absurd he (by decide)
  · exact absurd he (by decide)

theorem debug_inj {v w : Value} : v.debug = w.debug ↔ v = w := by
  refine text_inj (fun m n h => ?_) (by decide) (fun n b h => ?_)
  · rw [debug, debug, String.append_left_inj, String.append_right_inj] at h
    exact int_repr_inj h
  · have hhead := congrArg (fun s => s.toList.head?) h
    cases b <;> simp [debug] at hhead

theorem not_mem_render {c : Char} (hc : c = ',' ∨ c = '\x7d') (v : Value) :
    c ∉ v.render.toList := by
  intro h
  cases v with
  | int n =>
    rcases isDigit_of_mem_repr h with he | hd
    · rcases hc with rfl | rfl <;> exact absurd he (by decide)
    · rcases hc with rfl | rfl <;> exact absurd hd (by decide)
  | bool b => rcases hc with rfl | rfl <;> cases b <;> exact absurd h (by decide)

end Value

end WhileLang
