import WhileLang.Proofs.Reading.Lexeme
import WhileLang.Proofs.Reading.Parse
import WhileLang.Proofs.Text.Joined

/-!
# Layouts

A text lays out tokens when it is their spellings in order, with blanks before, between and
behind them wherever one spelling would run on into the next (`Laid`).  Only a number has
more than one spelling, by zeros in front.

A token is read where one of its spellings stands and is not continued
(`Lexeme.ofChars_of_spells`), and nowhere else (`Lexeme.spells_of_ofChars`).  Hence a text is
read without a fault if and only if it lays out tokens, and then those are the tokens read
(`laid_iff`), so that a text is a program if and only if it lays out the tokens of one
(`Stmt.parse_eq_ok_iff_laid`).
-/

namespace WhileLang

/-! ### Spellings -/

/-- The ways to write a token. -/
inductive Token.Spells : Token → List Char → Prop
  | var {cs : List Char} (hne : cs ≠ []) (hu : ∀ c ∈ cs, c.isUpper = true) :
      Spells (.var (String.ofList cs)) cs
  | number {cs : List Char} (hne : cs ≠ []) (hd : ∀ c ∈ cs, c.isDigit = true) :
      Spells (.number (Nat.ofDigitChars 10 cs 0)) cs
  | op (op : Operator) : Spells (.op op) op.symbol.toList
  | assign : Spells .assign [':', '=']
  | lparen : Spells .lparen ['(']
  | rparen : Spells .rparen [')']
  | semi : Spells .semi [';']
  | keyword (k : Keyword) : Spells (.keyword k) k.word.toList

/-- Whether a token would go on if the character came right behind it. -/
def Token.continuedBy : Token → Char → Bool
  | .var _, c => c.isAlpha
  | .keyword _, c => c.isAlpha
  | .number _, c => c.isDigit
  | .op .gt, c => c == '='
  | .op .lt, c => c == '='
  | _, _ => false

def Token.EndsBefore (t : Token) (rest : List Char) : Prop :=
  ∀ c, rest.head? = some c → t.continuedBy c = false

theorem Token.endsBefore_nil (t : Token) : t.EndsBefore [] := fun c hc => by cases hc

theorem Token.endsBefore_cons {t : Token} {c : Char} {rest : List Char}
    (h : t.continuedBy c = false) : t.EndsBefore (c :: rest) := by
  intro c' hc
  cases hc
  exact h

theorem Token.continuedBy_of_isBlank (t : Token) {c : Char} (h : Lexeme.isBlank c = true) :
    t.continuedBy c = false := by
  simp only [Lexeme.isBlank, Bool.or_eq_true, beq_iff_eq] at h
  cases t with
  | op op => rcases h with ((rfl | rfl) | rfl) | rfl <;> cases op <;> rfl
  | _ => rcases h with ((rfl | rfl) | rfl) | rfl <;> rfl

theorem Token.Spells.ne_nil {t : Token} {cs : List Char} (h : t.Spells cs) : cs ≠ [] := by
  cases h with
  | var hne => exact hne
  | number hne => exact hne
  | op op => cases op <;> decide
  | keyword k => cases k <;> decide
  | assign => decide
  | lparen => decide
  | rparen => decide
  | semi => decide

def isVisible (c : Char) : Bool := 33 ≤ c.toNat && c.toNat ≤ 126

theorem Token.Spells.all_isVisible {t : Token} {cs : List Char} (h : t.Spells cs) :
    cs.all isVisible = true := by
  cases h with
  | var _ hu =>
    refine List.all_eq_true.mpr fun c hc => ?_
    have hrange := toNat_of_isUpper (hu c hc)
    simp only [isVisible, Bool.and_eq_true, decide_eq_true_eq]
    omega
  | number _ hd =>
    refine List.all_eq_true.mpr fun c hc => ?_
    have hrange := toNat_of_isDigit (hd c hc)
    simp only [isVisible, Bool.and_eq_true, decide_eq_true_eq]
    omega
  | op op => cases op <;> decide
  | keyword k => cases k <;> decide
  | assign => decide
  | lparen => decide
  | rparen => decide
  | semi => decide

theorem Token.Spells.isBlank_eq_false {t : Token} {cs : List Char} (h : t.Spells cs) {c : Char}
    (hc : c ∈ cs) : Lexeme.isBlank c = false := by
  have hvisible := List.all_eq_true.mp h.all_isVisible c hc
  simp only [isVisible, Bool.and_eq_true, decide_eq_true_eq] at hvisible
  exact Lexeme.isBlank_eq_false (by omega)

namespace Lexeme

/-! ### Reading a spelling -/

theorem ofWord_word (k : Keyword) (more : Nat) :
    ofWord k.word more = .token (.keyword k) more := by
  rw [ofWord, Keyword.ofWord?_word]

/-- A word in capitals is a name, since keywords are not in capitals. -/
theorem ofWord_of_isUpper {c : Char} {cs : List Char} (hu : ∀ d ∈ c :: cs, d.isUpper = true)
    (more : Nat) :
    ofWord (String.ofList (c :: cs)) more = .token (.var (String.ofList (c :: cs))) more := by
  have hk : Keyword.ofWord? (String.ofList (c :: cs)) = none := by
    refine Keyword.ofWord?_eq_none_iff.mpr fun k hk => ?_
    have hall : k.word.toList.all Char.isUpper = true := by
      rw [hk, String.toList_ofList]
      exact List.all_eq_true.mpr hu
    have hsmall : k.word.toList.all Char.isUpper = false := by cases k <;> decide
    rw [hsmall] at hall
    cases hall
  have hall : (String.ofList (c :: cs)).toList.all Char.isUpper = true := by
    rw [String.toList_ofList]
    exact List.all_eq_true.mpr hu
  rw [ofWord, hk]
  exact if_pos hall

theorem ofChars_of_spells {t : Token} {c : Char} {cs rest : List Char}
    (h : t.Spells (c :: cs)) (hend : t.EndsBefore rest) :
    ofChars c (cs ++ rest) = .token t cs.length := by
  generalize hw : c :: cs = w at h
  cases h with
  | var hne hu =>
    subst hw
    have hrun : (cs ++ rest).takeWhile Char.isAlpha = cs :=
      takeWhile_append_of_head
        (fun d hd => isAlpha_of_isUpper (hu d (List.mem_cons_of_mem c hd))) hend
    rw [ofChars_of_isAlpha (isAlpha_of_isUpper (hu c List.mem_cons_self)), hrun,
      ofWord_of_isUpper hu]
  | number hne hd =>
    subst hw
    have hrun : (cs ++ rest).takeWhile Char.isDigit = cs :=
      takeWhile_append_of_head (fun d hd' => hd d (List.mem_cons_of_mem c hd')) hend
    rw [ofChars_of_isDigit (hd c List.mem_cons_self), hrun]
  | keyword k =>
    have hk : ∀ d ∈ c :: cs, d.isAlpha = true := by
      rw [hw]
      exact List.all_eq_true.mp (by cases k <;> decide)
    have hrun : (cs ++ rest).takeWhile Char.isAlpha = cs :=
      takeWhile_append_of_head (fun d hd => hk d (List.mem_cons_of_mem c hd)) hend
    have hword : String.ofList (c :: cs) = k.word := by rw [hw, String.ofList_toList]
    rw [ofChars_of_isAlpha (hk c List.mem_cons_self), hrun, hword, ofWord_word]
  | op op =>
    cases op with
    | plus => cases hw; rfl
    | minus => cases hw; rfl
    | times => cases hw; rfl
    | divide => cases hw; rfl
    | ge => cases hw; rfl
    | le => cases hw; rfl
    | gt =>
      cases hw
      exact if_neg fun hn => absurd (hend '=' hn) (by decide)
    | lt =>
      cases hw
      exact if_neg fun hn => absurd (hend '=' hn) (by decide)
  | assign => cases hw; rfl
  | lparen => cases hw; rfl
  | rparen => cases hw; rfl
  | semi => cases hw; rfl

theorem spells_of_ofSymbol {c : Char} {cs : List Char} {t : Token} {more : Nat}
    (h : ofSymbol c cs.head? = .token t more) :
    t.Spells (c :: cs.take more) ∧ t.EndsBefore (cs.drop more) := by
  have hfree : ∀ u : Token, (∀ d, u.continuedBy d = false) → ∀ ds, u.EndsBefore ds :=
    fun u hu ds d _ => hu d
  unfold ofSymbol at h
  split at h
  case h_5 =>
    split at h
    · next hn =>
      cases h
      obtain ⟨ds, rfl⟩ := List.head?_eq_some_iff.mp hn
      exact ⟨.op .ge, hfree _ (fun _ => rfl) _⟩
    · next hn =>
      cases h
      exact ⟨.op .gt, fun d hd => beq_eq_false_iff_ne.mpr fun e => hn (e ▸ hd)⟩
  case h_6 =>
    split at h
    · next hn =>
      cases h
      obtain ⟨ds, rfl⟩ := List.head?_eq_some_iff.mp hn
      exact ⟨.op .le, hfree _ (fun _ => rfl) _⟩
    · next hn =>
      cases h
      exact ⟨.op .lt, fun d hd => beq_eq_false_iff_ne.mpr fun e => hn (e ▸ hd)⟩
  case h_7 =>
    split at h
    · next hn =>
      cases h
      obtain ⟨ds, rfl⟩ := List.head?_eq_some_iff.mp hn
      exact ⟨.assign, hfree _ (fun _ => rfl) _⟩
    · cases h
  case h_1 => cases h; exact ⟨.op .plus, hfree _ (fun _ => rfl) _⟩
  case h_2 => cases h; exact ⟨.op .minus, hfree _ (fun _ => rfl) _⟩
  case h_3 => cases h; exact ⟨.op .times, hfree _ (fun _ => rfl) _⟩
  case h_4 => cases h; exact ⟨.op .divide, hfree _ (fun _ => rfl) _⟩
  case h_8 => cases h; exact ⟨.lparen, hfree _ (fun _ => rfl) _⟩
  case h_9 => cases h; exact ⟨.rparen, hfree _ (fun _ => rfl) _⟩
  case h_10 => cases h; exact ⟨.semi, hfree _ (fun _ => rfl) _⟩
  case h_11 => cases h

/-- A text is its longest run of a class and what comes after it. -/
theorem exists_run (p : Char → Bool) (cs : List Char) :
    ∃ run rest, cs = run ++ rest ∧ cs.takeWhile p = run ∧ (∀ c ∈ run, p c = true) ∧
      ∀ c, rest.head? = some c → p c = false := by
  refine ⟨cs.takeWhile p, cs.dropWhile p, List.takeWhile_append_dropWhile.symm, rfl,
    List.all_eq_true.mp List.all_takeWhile, fun c hc => ?_⟩
  have hstop := List.head?_dropWhile_not p cs
  rw [hc] at hstop
  exact hstop

/-- What is read as a token is spelled so, and does not go on. -/
theorem spells_of_ofChars {c : Char} {cs : List Char} {t : Token} {more : Nat}
    (h : ofChars c cs = .token t more) :
    t.Spells (c :: cs.take more) ∧ t.EndsBefore (cs.drop more) := by
  by_cases ha : c.isAlpha = true
  · obtain ⟨run, rest, rfl, hrun, hp, hrest⟩ := exists_run Char.isAlpha cs
    rw [ofChars_of_isAlpha ha, hrun] at h
    obtain ⟨rfl, ⟨k, rfl, hk⟩ | ⟨rfl, hu⟩⟩ := ofWord_eq_token h
    · have hword : c :: run = k.word.toList := by rw [hk, String.toList_ofList]
      rw [List.take_left, List.drop_left, hword]
      exact ⟨.keyword k, hrest⟩
    · rw [String.toList_ofList] at hu
      rw [List.take_left, List.drop_left]
      exact ⟨.var (List.cons_ne_nil c run) hu, hrest⟩
  · by_cases hb : isBlank c = true
    · rw [ofChars_of_isBlank hb] at h
      cases h
    · by_cases hd : c.isDigit = true
      · obtain ⟨run, rest, rfl, hrun, hp, hrest⟩ := exists_run Char.isDigit cs
        rw [ofChars_of_isDigit hd, hrun] at h
        cases h
        rw [List.take_left, List.drop_left]
        exact ⟨.number (List.cons_ne_nil c run) (List.forall_mem_cons.mpr ⟨hd, hp⟩), hrest⟩
      · rw [ofChars_of_other (Bool.eq_false_iff.mpr hb) (Bool.eq_false_iff.mpr hd)
          (Bool.eq_false_iff.mpr ha)] at h
        exact spells_of_ofSymbol h

end Lexeme

/-! ### Layouts -/

/-- The characters are spellings of the tokens in order, with blanks where they are needed. -/
inductive Laid : List Token → List Char → Prop
  | done : Laid [] []
  | blank {ts : List Token} {c : Char} {cs : List Char} (hc : Lexeme.isBlank c = true)
      (h : Laid ts cs) : Laid ts (c :: cs)
  | token {t : Token} {ts : List Token} {cs rest : List Char} (ht : t.Spells cs)
      (hend : t.EndsBefore rest) (h : Laid ts rest) : Laid (t :: ts) (cs ++ rest)

/-- A token is read off one of its spellings, and the stream goes on behind it. -/
theorem TokenStream.ofChars_of_spells {t : Token} {cs rest : List Char} (ht : t.Spells cs)
    (hend : t.EndsBefore rest) (offset line : Nat) :
    ofChars offset line (cs ++ rest) =
      .token t offset line (ofChars (offset + cs.length) line rest) := by
  obtain ⟨c, cs, rfl⟩ := List.exists_cons_of_ne_nil ht.ne_nil
  have hlength : offset + (c :: cs).length = offset + 1 + cs.length := by
    rw [List.length_cons]
    omega
  rw [List.cons_append, ofChars, Lexeme.ofChars_of_spells ht hend, hlength]
  show TokenStream.token t offset line (ofChars _ _ ((cs ++ rest).drop _)) = _
  rw [List.drop_left]

theorem Laid.tokens_eq {ts : List Token} {cs : List Char} (h : Laid ts cs) :
    ∀ offset line, (TokenStream.ofChars offset line cs).tokens = ts ∧
      ∃ l, (TokenStream.ofChars offset line cs).ending = .ok l := by
  induction h with
  | done =>
    intro offset line
    rw [TokenStream.ofChars]
    exact ⟨rfl, line, rfl⟩
  | blank hc _ ih =>
    intro offset line
    rw [TokenStream.ofChars, Lexeme.ofChars_of_isBlank hc]
    exact ih _ _
  | @token t ts cs rest ht hend _ ih =>
    intro offset line
    obtain ⟨hts, hl⟩ := ih (offset + cs.length) line
    rw [TokenStream.ofChars_of_spells ht hend, TokenStream.tokens, hts]
    exact ⟨rfl, hl⟩

theorem laid_of_ending {offset line : Nat} {cs : List Char} {l : Nat}
    (h : (TokenStream.ofChars offset line cs).ending = .ok l) :
    Laid (TokenStream.ofChars offset line cs).tokens cs := by
  fun_induction TokenStream.ofChars offset line cs with
  | case1 => exact .done
  | case2 offset line c cs hc ih => exact .blank (Lexeme.isBlank_of_ofChars hc) (ih h)
  | case3 offset line c cs t more ht ih =>
    obtain ⟨hspells, hend⟩ := Lexeme.spells_of_ofChars ht
    have hlaid := Laid.token hspells hend (ih h)
    rwa [List.cons_append, List.take_append_drop] at hlaid
  | case4 => cases h

/-- A text is read without a fault exactly if it is a layout, and its tokens are those laid
out. -/
theorem laid_iff {ts : List Token} {text : String} :
    Laid ts text.toList ↔ (∃ l, (TokenStream.ofString text).ending = .ok l) ∧
      (TokenStream.ofString text).tokens = ts := by
  constructor
  · intro h
    exact (h.tokens_eq 0 1).symm
  · rintro ⟨⟨l, hl⟩, rfl⟩
    exact laid_of_ending hl

theorem Stmt.parse_eq_ok_iff_laid {text : String} {s : Stmt} :
    parse text = .ok s ↔ ∃ ts, Laid ts text.toList ∧ Grammar.Statement ts s := by
  rw [parse_eq_ok_iff]
  constructor
  · rintro ⟨hend, hs⟩
    exact ⟨_, laid_iff.mpr ⟨hend, rfl⟩, hs⟩
  · rintro ⟨ts, hl, hs⟩
    obtain ⟨hend, rfl⟩ := laid_iff.mp hl
    exact ⟨hend, hs⟩

end WhileLang
