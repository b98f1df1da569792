import WhileLang.Text.Quoted

/-!
# Reading quoted texts

What stands between quotes can be read back one character at a time: a backslash says how many of
the characters behind it belong to one that was written (`character?`).  So every character is
found again, whatever follows it (`character?_written`), and a text can be told from its quoted
form (`quoted_inj`).
-/

namespace WhileLang

namespace Quoted

/-! ### Hexadecimal digits -/

def hexValue (c : Char) : Nat := if c.isDigit then c.toNat - 48 else c.toNat - 87

def hexNumber (cs : List Char) : Nat := cs.foldl (fun n c => 16 * n + hexValue c) 0

theorem hexValue_digitChar : ∀ d < 16, hexValue (Nat.digitChar d) = d := by decide

theorem hexNumber_append (cs : List Char) (c : Char) :
    hexNumber (cs ++ [c]) = 16 * hexNumber cs + hexValue c := by
  rw [hexNumber, List.foldl_append]
  rfl

theorem hexNumber_toDigits (n : Nat) : hexNumber (Nat.toDigits 16 n) = n := by
  induction n using Nat.strongRecOn with
  | ind n ih =>
    rw [Nat.toDigits_eq_if (by decide)]
    by_cases hn : n < 16
    · rw [if_pos hn]
      show 16 * 0 + hexValue n.digitChar = n
      rw [hexValue_digitChar n hn, Nat.zero_add]
    · rw [if_neg hn, hexNumber_append, ih (n / 16) (by omega),
        hexValue_digitChar (n % 16) (Nat.mod_lt n (by decide))]
      omega

theorem hexNumber_replicate_append (k : Nat) (cs : List Char) :
    hexNumber (List.replicate k '0' ++ cs) = hexNumber cs := by
  induction k with
  | zero => rfl
  | succ k ih => exact ih

theorem hexNumber_hexDigits (width n : Nat) : hexNumber (hexDigits width n) = n := by
  rw [hexDigits, hexNumber_replicate_append, hexNumber_toDigits]

theorem length_hexDigits {width n : Nat} (h : (Nat.toDigits 16 n).length ≤ width) :
    (hexDigits width n).length = width := by
  rw [hexDigits, List.length_append, List.length_replicate]
  omega

/-! ### Reading a character -/

/-- The character of the given number of digits in front, and what follows it. -/
def codePoint (width : Nat) (cs : List Char) : Char × List Char :=
  (Char.ofNat (hexNumber (cs.take width)), cs.drop width)

/-- The character behind a backslash, and what follows it. -/
def escaped : List Char → Option (Char × List Char)
  | [] => none
  | 'n' :: rest => some ('\n', rest)
  | 'r' :: rest => some ('\r', rest)
  | 't' :: rest => some ('\t', rest)
  | 'x' :: rest => some (codePoint 2 rest)
  | 'u' :: rest => some (codePoint 4 rest)
  | 'U' :: rest => some (codePoint 8 rest)
  | c :: rest => some (c, rest)

/-- The first character that was written between the quotes, and what follows it. -/
def character? : List Char → Option (Char × List Char)
  | [] => none
  | c :: rest => if c = '\\' then escaped rest else some (c, rest)

theorem codePoint_hexDigits {width : Nat} {c : Char} (rest : List Char)
    (h : (Nat.toDigits 16 c.toNat).length ≤ width) :
    codePoint width (hexDigits width c.toNat ++ rest) = (c, rest) := by
  have hlength := length_hexDigits h
  rw [codePoint, List.take_left' hlength, List.drop_left' hlength, hexNumber_hexDigits,
    Char.ofNat_toNat]

theorem character?_codeEscape (c : Char) (rest : List Char) :
    character? (codeEscape c.toNat ++ rest) = some (c, rest) := by
  have hdigits {width : Nat} (hw : 0 < width) (h : c.toNat < Nat.pow 16 width) :
      (Nat.toDigits 16 c.toNat).length ≤ width :=
    (Nat.length_toDigits_le_iff (by decide) hw).mpr h
  rw [codeEscape]
  by_cases hx : c.toNat < 0x100
  · rw [if_pos hx]
    exact congrArg some (codePoint_hexDigits rest (hdigits (by decide) hx))
  · rw [if_neg hx]
    by_cases hu : c.toNat < 0x10000
    · rw [if_pos hu]
      exact congrArg some (codePoint_hexDigits rest (hdigits (by decide) hu))
    · rw [if_neg hu]
      exact congrArg some (codePoint_hexDigits rest (hdigits (by decide) c.val.toNat_lt))

theorem character?_cons {c : Char} (h : c ≠ '\\') (rest : List Char) :
    character? (c :: rest) = some (c, rest) := if_neg h

theorem character?_written {quote : Char} (hq : quote = '\x27' ∨ quote = '\x22') (c : Char)
    (rest : List Char) : character? (written quote c ++ rest) = some (c, rest) := by
  rw [written]
  split
  next hself =>
    rcases Bool.or_eq_true_iff.mp hself with hc | hc
    · rw [of_decide_eq_true hc]
      rcases hq with rfl | rfl <;> rfl
    · rw [of_decide_eq_true hc]
      rfl
  next hself =>
    split
    next hn =>
      rw [hn]
      rfl
    split
    next hr =>
      rw [hr]
      rfl
    split
    next ht =>
      rw [ht]
      rfl
    split
    next =>
      refine character?_cons (fun hc => hself ?_) rest
      rw [hc]
      simp
    next => exact character?_codeEscape c rest

/-! ### Reading a text -/

theorem head?_written_ne {quote : Char} (hq : quote = '\x27' ∨ quote = '\x22') (c : Char)
    (rest : List Char) : (written quote c ++ rest).head? ≠ some quote := by
  have hbackslash : quote ≠ '\\' := by rcases hq with rfl | rfl <;> decide
  intro h
  -- by itself the quote would be read as itself, and not as what was written
  obtain ⟨cs, hcs⟩ := List.head?_eq_some_iff.mp h
  have hread := character?_written hq c rest
  rw [hcs, character?_cons hbackslash, Option.some.injEq, Prod.mk.injEq] at hread
  obtain ⟨rfl, rfl⟩ := hread
  have hlength := congrArg List.length hcs
  rw [written, if_pos (by simp)] at hlength
  simp only [List.length_append, List.length_cons, List.length_nil] at hlength
  omega

/-- What is written of a text can be told from what follows the quote behind it. -/
theorem flatMap_written_append_inj {quote : Char} (hq : quote = '\x27' ∨ quote = '\x22')
    {cs cs' rest rest' : List Char}
    (h : cs.flatMap (written quote) ++ quote :: rest =
      cs'.flatMap (written quote) ++ quote :: rest') : cs = cs' ∧ rest = rest' := by
  induction cs generalizing cs' with
  | nil =>
    cases cs' with
    | nil => exact ⟨rfl, (List.cons.inj h).2⟩
    | cons c' cs' =>
      rw [List.flatMap_cons, List.append_assoc] at h
      exact absurd (congrArg List.head? h).symm (head?_written_ne hq c' _)
  | cons c cs ih =>
    rw [List.flatMap_cons, List.append_assoc] at h
    cases cs' with
    | nil => exact absurd (congrArg List.head? h) (head?_written_ne hq c _)
    | cons c' cs' =>
      rw [List.flatMap_cons, List.append_assoc] at h
      have hread := congrArg character? h
      rw [character?_written hq, character?_written hq, Option.some.injEq,
        Prod.mk.injEq] at hread
      obtain ⟨hcs, hrest⟩ := ih hread.2
      exact ⟨by rw [hread.1, hcs], hrest⟩

theorem quoteOf_eq_or (cs : List Char) : quoteOf cs = '\x27' ∨ quoteOf cs = '\x22' := by
  rw [quoteOf]
  split
  · exact Or.inr rfl
  · exact Or.inl rfl

end Quoted

/-- A quoted text can be told from what follows it. -/
theorem quoted_append_inj {text text' : String} {rest rest' : List Char}
    (h : (quoted text).toList ++ rest = (quoted text').toList ++ rest') :
    text = text' ∧ rest = rest' := by
  rw [quoted, quoted, String.toList_ofList, String.toList_ofList, List.append_assoc,
    List.append_assoc] at h
  obtain ⟨hquote, hbehind⟩ := List.cons.inj h
  rw [hquote] at hbehind
  obtain ⟨htext, hrest⟩ :=
    Quoted.flatMap_written_append_inj (Quoted.quoteOf_eq_or text'.toList) hbehind
  exact ⟨String.toList_injective htext, hrest⟩

theorem quoted_inj {text text' : String} : quoted text = quoted text' ↔ text = text' := by
  constructor
  · intro h
    have hchars : (quoted text).toList ++ [] = (quoted text').toList ++ [] := by rw [h]
    exact (quoted_append_inj hchars).1
  · rintro rfl
    rfl

end WhileLang
