import WhileLang.Proofs.Reading.Lexeme

/-!
# The places of tokens

A token stream runs through its text from the left.  Every token of it stands in the text at
its offset (`TokenStream.lexeme_of_mem_entries`), the offsets increase
(`TokenStream.pairwise_entries`), and a stream with a fault ends at the first place behind
its tokens that holds none (`TokenStream.begins_of_ending`).

`TokenStream.before` are the tokens in front of an offset.  Those in front of a later offset
begin with those up to any token between the two (`TokenStream.exists_before_eq_of_lt`).
-/

namespace WhileLang.TokenStream

def endOffset : TokenStream → Nat
  | .finish offset _ => offset
  | .fault _ offset => offset
  | .token _ _ _ rest => rest.endOffset

/-- The tokens in front of an offset. -/
def before (stream : TokenStream) (offset : Nat) : List Token :=
  (stream.entries.filter fun entry => decide (entry.2.1 < offset)).map Prod.fst

theorem map_fst_entries (stream : TokenStream) : stream.entries.map Prod.fst = stream.tokens := by
  induction stream with
  | finish => rfl
  | fault => rfl
  | token t offset line rest ih => rw [entries, List.map_cons, ih, tokens]

/-! ### Tokens in the text -/

/-- A place of the text that comes later is the same place of what is left of the text. -/
theorem drop_sub (c : Char) (cs : List Char) {offset o : Nat} (more : Nat)
    (h : offset + 1 + more ≤ o) :
    (c :: cs).drop (o - offset) = (cs.drop more).drop (o - (offset + 1 + more)) := by
  have hsplit : o - offset = more + (o - (offset + 1 + more)) + 1 := by omega
  rw [hsplit, List.drop_succ_cons, List.drop_drop]

/-- A token of a stream stands in the text at its offset. -/
theorem lexeme_of_mem_entries {offset line : Nat} {cs : List Char} {t : Token} {o l : Nat}
    (h : (t, o, l) ∈ (ofChars offset line cs).entries) :
    offset ≤ o ∧ ∃ c rest more, cs.drop (o - offset) = c :: rest ∧
      Lexeme.ofChars c rest = .token t more := by
  fun_induction ofChars offset line cs with
  | case1 => cases h
  | case2 offset line c cs _ ih =>
    obtain ⟨ho, hd⟩ := ih h
    refine ⟨by omega, ?_⟩
    rw [drop_sub c cs 0 (by omega), List.drop_zero]
    exact hd
  | case3 offset line c cs u more hu ih =>
    rw [entries, List.mem_cons] at h
    rcases h with he | h
    · cases he
      exact ⟨Nat.le_refl _, c, cs, more, by rw [Nat.sub_self, List.drop_zero], hu⟩
    · obtain ⟨ho, hd⟩ := ih h
      refine ⟨by omega, ?_⟩
      rw [drop_sub c cs more ho]
      exact hd
  | case4 => cases h

theorem lt_length_of_mem_entries {line : Nat} {cs : List Char} {t : Token} {o l : Nat}
    (h : (t, o, l) ∈ (ofChars 0 line cs).entries) : o < cs.length := by
  obtain ⟨-, c, rest, more, hd, -⟩ := lexeme_of_mem_entries h
  rw [Nat.sub_zero] at hd
  rw [← Nat.not_le, ← List.drop_eq_nil_iff, hd]
  exact List.cons_ne_nil c rest

theorem pairwise_entries (offset line : Nat) (cs : List Char) :
    (ofChars offset line cs).entries.Pairwise fun a b => a.2.1 < b.2.1 := by
  fun_induction ofChars offset line cs with
  | case1 => exact .nil
  | case2 offset line c cs _ ih => exact ih
  | case3 offset line c cs t more _ ih =>
    refine List.pairwise_cons.mpr ⟨?_, ih⟩
    rintro ⟨u, o, l⟩ h
    have ho := (lexeme_of_mem_entries h).1
    show offset < o
    omega
  | case4 => exact .nil

theorem token_unique {offset line : Nat} {cs : List Char} {t t' : Token} {o l l' : Nat}
    (h : (t, o, l) ∈ (ofChars offset line cs).entries)
    (h' : (t', o, l') ∈ (ofChars offset line cs).entries) : t = t' := by
  obtain ⟨-, c, rest, more, hd, ht⟩ := lexeme_of_mem_entries h
  obtain ⟨-, c', rest', more', hd', ht'⟩ := lexeme_of_mem_entries h'
  rw [hd] at hd'
  cases hd'
  rw [ht] at ht'
  cases ht'
  rfl

/-! ### The end of a stream -/

theorem endOffset_of_ending {offset line : Nat} {cs : List Char} {l : Nat}
    (h : (ofChars offset line cs).ending = .ok l) :
    (ofChars offset line cs).endOffset = offset + cs.length := by
  fun_induction ofChars offset line cs with
  | case1 => rfl
  | case2 offset line c cs _ ih =>
    refine (ih h).trans ?_
    rw [List.length_cons]
    omega
  | case3 offset line c cs t more ht ih =>
    have hmore := Lexeme.more_le_length ht
    rw [endOffset, ih h, List.length_drop, List.length_cons]
    omega
  | case4 => cases h

/-- A stream with a fault ends at a place of the text that holds no token. -/
theorem begins_of_ending {offset line : Nat} {cs : List Char} {cause : LexicalFault} {o : Nat}
    (h : (ofChars offset line cs).ending = .error (cause, o)) :
    offset ≤ o ∧ cause.Begins (cs.drop (o - offset)) := by
  fun_induction ofChars offset line cs with
  | case1 => cases h
  | case2 offset line c cs _ ih =>
    obtain ⟨ho, hd⟩ := ih h
    refine ⟨by omega, ?_⟩
    rw [drop_sub c cs 0 (by omega), List.drop_zero]
    exact hd
  | case3 offset line c cs t more _ ih =>
    obtain ⟨ho, hd⟩ := ih h
    refine ⟨by omega, ?_⟩
    rw [drop_sub c cs more ho]
    exact hd
  | case4 offset line c cs cause hc =>
    cases h
    refine ⟨Nat.le_refl _, ?_⟩
    rw [Nat.sub_self, List.drop_zero]
    exact Lexeme.ofChars_eq_fault_iff.mp hc

theorem lt_of_ending {offset line : Nat} {cs : List Char} {cause : LexicalFault} {o : Nat}
    (h : (ofChars offset line cs).ending = .error (cause, o)) {t : Token} {o' l : Nat}
    (ht : (t, o', l) ∈ (ofChars offset line cs).entries) : o' < o := by
  fun_induction ofChars offset line cs with
  | case1 => cases h
  | case2 offset line c cs _ ih => exact ih h ht
  | case3 offset line c cs u more _ ih =>
    rw [entries, List.mem_cons] at ht
    rcases ht with he | ht
    · cases he
      have ho := (begins_of_ending h).1
      omega
    · exact ih h ht
  | case4 => cases ht

/-! ### The tokens in front of a place -/

theorem before_eq_tokens {stream : TokenStream} {o : Nat}
    (h : ∀ entry ∈ stream.entries, entry.2.1 < o) : stream.before o = stream.tokens := by
  have hall : stream.entries.filter (fun e => decide (e.2.1 < o)) = stream.entries :=
    List.filter_eq_self.mpr fun e he => by simpa using h e he
  rw [before, hall, map_fst_entries]

theorem before_eq {offset line : Nat} {cs : List Char} {first rest : List (Token × Nat × Nat)}
    {t : Token} {o l : Nat}
    (h : (ofChars offset line cs).entries = first ++ (t, o, l) :: rest) :
    (ofChars offset line cs).before o = first.map Prod.fst := by
  have hp := pairwise_entries offset line cs
  rw [h] at hp
  obtain ⟨-, hrest, hfirst⟩ := List.pairwise_append.mp hp
  have hkeep : first.filter (fun e => decide (e.2.1 < o)) = first :=
    List.filter_eq_self.mpr fun e he => by simpa using hfirst e he (t, o, l) List.mem_cons_self
  have hdrop : ((t, o, l) :: rest).filter (fun e => decide (e.2.1 < o)) = [] := by
    refine List.filter_eq_nil_iff.mpr fun e he => ?_
    have hle : o ≤ e.2.1 := by
      rcases List.mem_cons.mp he with rfl | he
      · exact Nat.le_refl _
      · exact Nat.le_of_lt ((List.pairwise_cons.mp hrest).1 e he)
    simpa using hle
  rw [before, h, List.filter_append, hkeep, hdrop, List.append_nil]

/-- The tokens in front of a place begin with those up to any token that comes before it. -/
theorem exists_before_eq_of_lt {offset line : Nat} {cs : List Char} {t : Token} {o o' l : Nat}
    (ht : (t, o, l) ∈ (ofChars offset line cs).entries) (h : o < o') :
    ∃ rest, (ofChars offset line cs).before o' =
      (ofChars offset line cs).before o ++ [t] ++ rest := by
  obtain ⟨first, rest, he⟩ := List.append_of_mem ht
  have hp := pairwise_entries offset line cs
  rw [he] at hp
  have hfirst := (List.pairwise_append.mp hp).2.2
  have hkeep : first.filter (fun e => decide (e.2.1 < o')) = first := by
    refine List.filter_eq_self.mpr fun e hm => ?_
    have hlt : e.2.1 < o := hfirst e hm (t, o, l) List.mem_cons_self
    simpa using Nat.lt_trans hlt h
  refine ⟨(rest.filter fun e => decide (e.2.1 < o')).map Prod.fst, ?_⟩
  rw [before_eq he, before, he, List.filter_append, hkeep,
    List.filter_cons_of_pos (by simpa using h), List.map_append, List.map_cons, List.append_assoc,
    List.singleton_append]

end WhileLang.TokenStream
