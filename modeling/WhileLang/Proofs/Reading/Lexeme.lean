import WhileLang.TokenStream

/-!
# What stands at the beginning of a text

The first character of a text decides by its class what stands there: blanks, digits, letters
and all other characters are four classes without a common member, so `Lexeme.ofChars` has
one equation for each (`Lexeme.ofChars_of_isBlank` and the three below it).

`LexicalFault.Begins` says without the reader when no token starts at the beginning of a
text, and why: the character belongs to no token at all, or the longest word there is neither
a keyword nor in capitals.  `Lexeme.ofChars_eq_fault_iff` says that these are the faults that
the reader finds.
-/

namespace WhileLang

/-! ### Classes of characters -/

theorem toNat_of_isDigit {c : Char} (h : c.isDigit = true) : 48 ≤ c.toNat ∧ c.toNat ≤ 57 := by
  obtain ⟨hlow, hhigh⟩ := Bool.and_eq_true_iff.mp h
  exact ⟨UInt32.le_iff_toNat_le.mp (of_decide_eq_true hlow),
    UInt32.le_iff_toNat_le.mp (of_decide_eq_true hhigh)⟩

theorem toNat_of_isUpper {c : Char} (h : c.isUpper = true) : 65 ≤ c.toNat ∧ c.toNat ≤ 90 := by
  obtain ⟨hlow, hhigh⟩ := of_decide_eq_true h
  exact ⟨UInt32.le_iff_toNat_le.mp hlow, UInt32.le_iff_toNat_le.mp hhigh⟩

theorem toNat_of_isLower {c : Char} (h : c.isLower = true) : 97 ≤ c.toNat ∧ c.toNat ≤ 122 := by
  obtain ⟨hlow, hhigh⟩ := Bool.and_eq_true_iff.mp h
  exact ⟨UInt32.le_iff_toNat_le.mp (of_decide_eq_true hlow),
    UInt32.le_iff_toNat_le.mp (of_decide_eq_true hhigh)⟩

theorem toNat_of_isAlpha {c : Char} (h : c.isAlpha = true) : 65 ≤ c.toNat ∧ c.toNat ≤ 122 := by
  rcases Bool.or_eq_true_iff.mp h with hu | hl
  · have hrange := toNat_of_isUpper hu
    omega
  · have hrange := toNat_of_isLower hl
    omega

theorem isAlpha_of_isUpper {c : Char} (h : c.isUpper = true) : c.isAlpha = true :=
  Bool.or_eq_true_iff.mpr (Or.inl h)

theorem isDigit_eq_false_of_isAlpha {c : Char} (h : c.isAlpha = true) : c.isDigit = false := by
  rw [Bool.eq_false_iff]
  intro hd
  have := toNat_of_isAlpha h
  have := toNat_of_isDigit hd
  omega

namespace Lexeme

theorem toNat_of_isBlank {c : Char} (h : isBlank c = true) : c.toNat ≤ 32 := by
  simp only [isBlank, Bool.or_eq_true, beq_iff_eq] at h
  rcases h with ((rfl | rfl) | rfl) | rfl <;> decide

theorem isBlank_eq_false {c : Char} (h : 32 < c.toNat) : isBlank c = false := by
  rw [Bool.eq_false_iff]
  intro hb
  have := toNat_of_isBlank hb
  omega

/-! ### The four classes -/

theorem ofChars_of_isBlank {c : Char} (h : isBlank c = true) (cs : List Char) :
    ofChars c cs = .blank := by
  rw [ofChars, if_pos h]

theorem ofChars_of_isDigit {c : Char} (h : c.isDigit = true) (cs : List Char) :
    ofChars c cs = .token (.number (Nat.ofDigitChars 10 (c :: cs.takeWhile Char.isDigit) 0))
      (cs.takeWhile Char.isDigit).length := by
  have hrange := toNat_of_isDigit h
  rw [ofChars, isBlank_eq_false (by omega), if_neg Bool.false_ne_true, if_pos h]

theorem ofChars_of_isAlpha {c : Char} (h : c.isAlpha = true) (cs : List Char) :
    ofChars c cs = ofWord (String.ofList (c :: cs.takeWhile Char.isAlpha))
      (cs.takeWhile Char.isAlpha).length := by
  have hrange := toNat_of_isAlpha h
  rw [ofChars, isBlank_eq_false (by omega), isDigit_eq_false_of_isAlpha h,
    if_neg Bool.false_ne_true, if_neg Bool.false_ne_true, if_pos h]

theorem ofChars_of_other {c : Char} (hb : isBlank c = false) (hd : c.isDigit = false)
    (ha : c.isAlpha = false) (cs : List Char) : ofChars c cs = ofSymbol c cs.head? := by
  rw [ofChars, hb, hd, ha, if_neg Bool.false_ne_true, if_neg Bool.false_ne_true,
    if_neg Bool.false_ne_true]

/-! ### Faults -/

/-- The characters that are a token, or begin one, whatever comes after them. -/
def marks : List Char := ['+', '-', '*', '/', '>', '<', '(', ')', ';']

theorem ofSymbol_eq_fault_iff {c : Char} {next : Option Char} {cause : LexicalFault} :
    ofSymbol c next = .fault cause ↔
      cause = .illegal c ∧ ¬c ∈ marks ∧ ¬(c = ':' ∧ next = some '=') := by
  unfold ofSymbol
  split
  case h_5 => split <;> simp [marks]
  case h_6 => split <;> simp [marks]
  case h_7 =>
    split
    · next h => simp [h]
    · next h => simp [marks, h, eq_comm]
  case h_11 h₁ h₂ h₃ h₄ h₅ h₆ h₇ h₈ h₉ h₁₀ =>
    have hmark : ¬c ∈ marks := by
      simp only [marks, List.mem_cons, List.not_mem_nil, or_false, not_or]
      exact ⟨h₁, h₂, h₃, h₄, h₅, h₆, h₈, h₉, h₁₀⟩
    simp only [fault.injEq]
    constructor
    · intro h
      exact ⟨h.symm, hmark, fun hc => h₇ hc.1⟩
    · rintro ⟨rfl, _⟩
      rfl
  all_goals simp [marks]

end Lexeme

theorem Keyword.ofWord?_eq_none_iff {word : String} :
    ofWord? word = none ↔ ∀ k : Keyword, k.word ≠ word := by
  have hall : ∀ k : Keyword, k ∈ all := fun k => by cases k <;> decide
  simp [ofWord?, hall]

theorem Keyword.word_of_ofWord? {word : String} {k : Keyword} (h : ofWord? word = some k) :
    k.word = word := by
  rw [ofWord?] at h
  have hk := List.find?_some h
  exact eq_of_beq hk

namespace Lexeme

theorem ofWord_eq_fault_iff {word : String} {more : Nat} {cause : LexicalFault} :
    ofWord word more = .fault cause ↔
      cause = .badWord word ∧ (∀ k : Keyword, k.word ≠ word) ∧
        ¬∀ c ∈ word.toList, c.isUpper = true := by
  rw [ofWord, ← Keyword.ofWord?_eq_none_iff, ← List.all_eq_true]
  cases Keyword.ofWord? word with
  | some k => simp
  | none =>
    by_cases hu : word.toList.all Char.isUpper = true
    · simp [hu]
    · simp [hu, eq_comm]

/-! ### Tokens -/

theorem ofWord_eq_token {word : String} {more n : Nat} {t : Token}
    (h : ofWord word more = .token t n) :
    n = more ∧ ((∃ k : Keyword, t = .keyword k ∧ k.word = word) ∨
      t = .var word ∧ ∀ c ∈ word.toList, c.isUpper = true) := by
  rw [ofWord] at h
  cases hk : Keyword.ofWord? word with
  | some k =>
    rw [hk] at h
    cases h
    exact ⟨rfl, Or.inl ⟨k, rfl, Keyword.word_of_ofWord? hk⟩⟩
  | none =>
    rw [hk] at h
    by_cases hu : word.toList.all Char.isUpper = true
    · simp only [hu, if_true, token.injEq] at h
      exact ⟨h.2.symm, Or.inr ⟨h.1.symm, List.all_eq_true.mp hu⟩⟩
    · simp [hu] at h

/-- A symbol takes one more character only if that is an equals sign. -/
theorem ofSymbol_eq_token {c : Char} {next : Option Char} {t : Token} {n : Nat}
    (h : ofSymbol c next = .token t n) :
    (n = 0 ∨ n = 1 ∧ next = some '=') ∧ (∀ name, t ≠ .var name) ∧ ∀ m, t ≠ .number m := by
  unfold ofSymbol at h
  split at h
  case h_5 => split at h <;> cases h <;> simp [*]
  case h_6 => split at h <;> cases h <;> simp [*]
  case h_7 =>
    split at h
    · next hn =>
      cases h
      simp [hn]
    · cases h
  all_goals cases h
  all_goals simp

theorem ofWord_ne_blank (word : String) (more : Nat) : ofWord word more ≠ .blank := by
  rw [ofWord]
  split
  · exact Lexeme.noConfusion
  · split <;> exact Lexeme.noConfusion

theorem ofSymbol_ne_blank (c : Char) (next : Option Char) : ofSymbol c next ≠ .blank := by
  unfold ofSymbol
  split
  case h_5 => split <;> exact Lexeme.noConfusion
  case h_6 => split <;> exact Lexeme.noConfusion
  case h_7 => split <;> exact Lexeme.noConfusion
  all_goals exact Lexeme.noConfusion

theorem isBlank_of_ofChars {c : Char} {cs : List Char} (h : ofChars c cs = .blank) :
    isBlank c = true := by
  by_cases hb : isBlank c = true
  · exact hb
  · rw [ofChars, if_neg hb] at h
    split at h
    · cases h
    · split at h
      · exact absurd h (ofWord_ne_blank _ _)
      · exact absurd h (ofSymbol_ne_blank _ _)

theorem more_le_length {c : Char} {cs : List Char} {t : Token} {more : Nat}
    (h : ofChars c cs = .token t more) : more ≤ cs.length := by
  by_cases ha : c.isAlpha = true
  · rw [ofChars_of_isAlpha ha] at h
    rw [(ofWord_eq_token h).1]
    exact (List.takeWhile_prefix Char.isAlpha).length_le
  · by_cases hb : isBlank c = true
    · rw [ofChars_of_isBlank hb] at h
      cases h
    · by_cases hd : c.isDigit = true
      · rw [ofChars_of_isDigit hd] at h
        cases h
        exact (List.takeWhile_prefix Char.isDigit).length_le
      · rw [ofChars_of_other (Bool.eq_false_iff.mpr hb) (Bool.eq_false_iff.mpr hd)
          (Bool.eq_false_iff.mpr ha)] at h
        rcases (ofSymbol_eq_token h).1 with rfl | ⟨rfl, hnext⟩
        · exact Nat.zero_le _
        · exact List.length_pos_of_mem (List.mem_of_mem_head? hnext)

end Lexeme

/-- No token starts at the beginning of the characters, and this is why. -/
inductive LexicalFault.Begins : LexicalFault → List Char → Prop
  /-- The character is no blank, digit, letter or mark, nor the beginning of `:=`. -/
  | illegal {c : Char} {cs : List Char} (hb : Lexeme.isBlank c = false)
      (hd : c.isDigit = false) (ha : c.isAlpha = false) (hm : ¬c ∈ Lexeme.marks)
      (hassign : ¬(c = ':' ∧ cs.head? = some '=')) : Begins (.illegal c) (c :: cs)
  /-- The longest word there is neither a keyword nor in capitals. -/
  | badWord {cs : List Char} (hne : cs.takeWhile Char.isAlpha ≠ [])
      (hk : ∀ k : Keyword, k.word ≠ String.ofList (cs.takeWhile Char.isAlpha))
      (hu : ¬∀ c ∈ cs.takeWhile Char.isAlpha, c.isUpper = true) :
      Begins (.badWord (String.ofList (cs.takeWhile Char.isAlpha))) cs

theorem Lexeme.ofChars_eq_fault_iff {c : Char} {cs : List Char} {cause : LexicalFault} :
    ofChars c cs = .fault cause ↔ cause.Begins (c :: cs) := by
  by_cases ha : c.isAlpha = true
  · have hword : (c :: cs).takeWhile Char.isAlpha = c :: cs.takeWhile Char.isAlpha :=
      List.takeWhile_cons_of_pos ha
    rw [ofChars_of_isAlpha ha, ofWord_eq_fault_iff, String.toList_ofList, ← hword]
    constructor
    · rintro ⟨rfl, hk, hu⟩
      exact .badWord (by rw [hword]; exact List.cons_ne_nil _ _) hk hu
    · intro h
      cases h with
      | illegal _ _ ha' _ _ => rw [ha] at ha'; cases ha'
      | badWord _ hk hu => exact ⟨rfl, hk, hu⟩
  · have ha : c.isAlpha = false := Bool.eq_false_iff.mpr ha
    have hnoWord : (c :: cs).takeWhile Char.isAlpha = [] :=
      List.takeWhile_cons_of_neg (by rw [ha]; exact Bool.false_ne_true)
    by_cases hb : isBlank c = true
    · rw [ofChars_of_isBlank hb]
      constructor
      · intro h; cases h
      · intro h
        cases h with
        | illegal hb' => rw [hb] at hb'; cases hb'
        | badWord hne => exact absurd hnoWord hne
    · have hb : isBlank c = false := Bool.eq_false_iff.mpr hb
      by_cases hd : c.isDigit = true
      · rw [ofChars_of_isDigit hd]
        constructor
        · intro h; cases h
        · intro h
          cases h with
          | illegal _ hd' => rw [hd] at hd'; cases hd'
          | badWord hne => exact absurd hnoWord hne
      · have hd : c.isDigit = false := Bool.eq_false_iff.mpr hd
        rw [ofChars_of_other hb hd ha, ofSymbol_eq_fault_iff]
        constructor
        · rintro ⟨rfl, hm, hassign⟩
          exact .illegal hb hd ha hm hassign
        · intro h
          cases h with
          | illegal _ _ _ hm hassign => exact ⟨rfl, hm, hassign⟩
          | badWord hne => exact absurd hnoWord hne

end WhileLang
