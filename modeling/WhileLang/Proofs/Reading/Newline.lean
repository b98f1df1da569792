import WhileLang.File
import WhileLang.Proofs.Reading.FirstFault
import WhileLang.Proofs.Reading.Segments

/-!
# Reading files

A file is read with its line breaks unified, a text as it is.  Both characters of a line break
separate tokens, so unifying changes gaps and nothing else: it leaves lexemes alone, and no token
starts where none started before (`LexicalFault.Begins.unifyNewlines`).  Segment by segment the
reader does the same, and a fault stands behind what unifying makes of the text in front of it
(`Cut.read_unifyNewlines`).

That place has the same line and the same column if every carriage return stands in front of a
line feed.  Otherwise a carriage return by itself becomes a new line.
-/

namespace WhileLang

/-! ### Places -/

/-- Where an offset of a text is when its line breaks are unified. -/
def unifiedOffset (cs : List Char) (offset : Nat) : Nat := (unifyNewlines (cs.take offset)).length

theorem unifiedOffset_append (cs ds : List Char) :
    unifiedOffset (cs ++ ds) cs.length = (unifyNewlines cs).length := by
  rw [unifiedOffset, List.take_left]

/-- Every carriage return stands in front of a line feed. -/
def PairedReturns (cs : List Char) : Prop :=
  ∀ i : Nat, cs[i]? = some '\r' → cs[i + 1]? = some '\n'

theorem PairedReturns.tail {c : Char} {cs : List Char} (h : PairedReturns (c :: cs)) :
    PairedReturns cs := fun i hi => h (i + 1) hi

theorem Position.foldl_advance_unifyNewlines {cs : List Char} (h : PairedReturns cs)
    (p : Position) : (unifyNewlines cs).foldl advance p = cs.foldl advance p := by
  fun_induction unifyNewlines cs generalizing p with
  | case1 => rfl
  | case2 cs ih =>
    -- a column that the carriage return moves on is lost at the line feed
    have hbreak : (p.advance '\r').advance '\n' = p.advance '\n' := by simp [advance]
    rw [List.foldl_cons, List.foldl_cons, List.foldl_cons, hbreak, ih h.tail.tail]
  | case3 cs hne _ =>
    obtain ⟨ds, hds⟩ := List.head?_eq_some_iff.mp (List.head?_eq_getElem?.trans (h 0 rfl))
    exact absurd hds fun hds => hne ds hds
  | case4 c cs _ _ ih => rw [List.foldl_cons, List.foldl_cons, ih h.tail]

/-! ### Gaps, lexemes and faults -/

theorem IsGap.unifyNewlines {gap : List Char} (h : IsGap gap) :
    IsGap (unifyNewlines gap) := by
  fun_induction WhileLang.unifyNewlines gap with
  | case1 => exact isGap_nil
  | case2 cs ih =>
    exact List.forall_mem_cons.mpr ⟨rfl, ih fun c hc => h c (by simp [hc])⟩
  | case3 cs _ ih => exact List.forall_mem_cons.mpr ⟨rfl, ih (List.forall_mem_cons.mp h).2⟩
  | case4 c cs _ _ ih =>
    obtain ⟨hc, hcs⟩ := List.forall_mem_cons.mp h
    exact List.forall_mem_cons.mpr ⟨hc, ih hcs⟩

theorem Gapless.head?_ne {cs : List Char} (h : Gapless cs) : cs.head? ≠ some '\n' :=
  fun hn => absurd (h '\n' hn) (by decide)

theorem Token.Spells.unifyNewlines {t : Token} {lexeme : List Char} (h : t.Spells lexeme) :
    unifyNewlines lexeme = lexeme := by
  refine unifyNewlines_of_forall_ne fun c hc he => ?_
  have hb := h.isBlank_eq_false hc
  rw [he] at hb
  exact absurd hb (by decide)

theorem Token.Spells.getLast?_ne {t : Token} {lexeme : List Char} (h : t.Spells lexeme)
    (front : List Char) : (front ++ lexeme).getLast? ≠ some '\r' := by
  rw [List.getLast?_append, List.getLast?_eq_some_getLast h.ne_nil, Option.some_or]
  intro hr
  have hb := h.isBlank_eq_false (List.getLast_mem h.ne_nil)
  rw [Option.some.inj hr] at hb
  exact absurd hb (by decide)

theorem Token.EndsBefore.unifyNewlines {t : Token} {cs : List Char} (h : t.EndsBefore cs) :
    t.EndsBefore (unifyNewlines cs) := by
  fun_cases WhileLang.unifyNewlines cs with
  | case1 => exact t.endsBefore_nil
  | case2 => exact Token.endsBefore_cons (t.continuedBy_of_isBlank rfl)
  | case3 => exact Token.endsBefore_cons (t.continuedBy_of_isBlank rfl)
  | case4 c cs => exact Token.endsBefore_cons (h c rfl)

theorem LexicalFault.Begins.unifyNewlines {cause : LexicalFault} {cs : List Char}
    (h : cause.Begins cs) : cause.Begins (unifyNewlines cs) := by
  cases h with
  | @illegal c cs hb hd ha hm hassign =>
    have hc : c ≠ '\r' := fun he => absurd (he ▸ hb) (by decide)
    have hhead : (WhileLang.unifyNewlines cs).head? = some '=' → cs.head? = some '=' := by
      fun_cases WhileLang.unifyNewlines cs with
      | case1 => exact id
      | case2 => exact fun he => absurd (Option.some.inj he) (by decide)
      | case3 => exact fun he => absurd (Option.some.inj he) (by decide)
      | case4 => exact id
    rw [unifyNewlines_cons hc]
    exact .illegal hb hd ha hm fun he => hassign ⟨he.1, hhead he.2⟩
  | badWord hne hk hu =>
    have hword := takeWhile_unifyNewlines (p := Char.isAlpha) rfl rfl cs
    rw [← hword] at hne hk hu ⊢
    exact .badWord hne hk hu

/-! ### What is read -/

namespace TokenStream

variable {front cs : List Char}

theorem behind_unifyNewlines_of_isGap {gap : List Char} (hfront : front.getLast? ≠ some '\r')
    (hg : IsGap gap) (hcs : Gapless cs) :
    behind (unifyNewlines front) (unifyNewlines (gap ++ cs)) =
      behind (unifyNewlines (front ++ gap)) (unifyNewlines cs) := by
  rw [unifyNewlines_append (Or.inr hcs.head?_ne), unifyNewlines_append (Or.inl hfront),
    behind_of_isGap hg.unifyNewlines]

theorem behind_unifyNewlines_of_spells {t : Token} {lexeme : List Char} (hs : t.Spells lexeme)
    (hend : t.EndsBefore cs) (front : List Char) :
    behind (unifyNewlines front) (unifyNewlines (lexeme ++ cs)) =
      .token t (unifyNewlines front).length ((unifyNewlines front).count '\n' + 1)
        (behind (unifyNewlines (front ++ lexeme)) (unifyNewlines cs)) := by
  have hlast : lexeme.getLast? ≠ some '\r' := hs.getLast?_ne []
  have hhead : lexeme.head? ≠ some '\n' := by
    have hgapless := hs.gapless []
    rw [List.append_nil] at hgapless
    exact hgapless.head?_ne
  rw [unifyNewlines_append (Or.inl hlast), unifyNewlines_append (Or.inr hhead),
    hs.unifyNewlines, behind_of_spells hs hend.unifyNewlines]

end TokenStream

/-- What is read of a text is the same when its line breaks are unified, and a fault is where
unifying puts its offset. -/
theorem Cut.read_unifyNewlines {cs gap rest : List Char} {ps : List Segment}
    (h : Cut cs ps gap rest) (u : Unfinished) {front : List Char}
    (hfront : front.getLast? ≠ some '\r') :
    u.read (TokenStream.behind (unifyNewlines front) (unifyNewlines cs)) =
      (u.read (TokenStream.behind front cs)).mapError
        (Prod.map id (unifiedOffset (front ++ cs))) := by
  induction h generalizing u front with
  | @last gap rest hg hr =>
    have hplace := unifiedOffset_append (front ++ gap) rest
    rw [List.append_assoc] at hplace
    rw [TokenStream.behind_unifyNewlines_of_isGap hfront hg (gapless_of_rest hr),
      TokenStream.behind_of_isGap hg]
    rcases hr with rfl | ⟨cause, hr⟩
    · rw [unifyNewlines, TokenStream.behind_nil, TokenStream.behind_nil, Unfinished.read,
        Unfinished.read, ← hplace]
      cases u.finish? <;> rfl
    · rw [TokenStream.behind_of_begins hr.unifyNewlines, TokenStream.behind_of_begins hr,
        Unfinished.read, Unfinished.read, ← hplace]
      rfl
  | @segment p cs gap rest ps hg hs hend h ih =>
    have hplace := unifiedOffset_append (front ++ p.gap) (p.lexeme ++ cs)
    rw [List.append_assoc] at hplace
    rw [TokenStream.behind_unifyNewlines_of_isGap hfront hg (hs.gapless cs),
      TokenStream.behind_of_isGap hg, TokenStream.behind_unifyNewlines_of_spells hs hend,
      TokenStream.behind_of_spells hs hend, Unfinished.read, Unfinished.read]
    cases u.step p.token with
    | none =>
      show Except.error _ = Except.error _
      rw [← hplace]
      rfl
    | some v =>
      have htail := ih v (hs.getLast?_ne (front ++ p.gap))
      simp only [List.append_assoc] at htail ⊢
      exact htail

/-! ### Where faults are -/

theorem StopsAt.gapless_drop {text : String} {o : Nat} {fault : ParseFault} {m : String}
    (h : StopsAt text o fault m) : Gapless (text.toList.drop o) := by
  rcases h.place with ⟨cause, -, -, hbegins⟩ | ⟨-, ho, -⟩ | ⟨t, line, -, ht, -⟩
  · exact hbegins.gapless
  · rw [List.drop_of_length_le (by omega)]
    exact gapless_nil
  · obtain ⟨lexeme, rest, htext, hspells, -⟩ := exists_lexeme_of_mem_entries ht
    rw [htext]
    exact hspells.gapless rest

/-- Outside gaps a place keeps its line and column, if every carriage return stands in front of a
line feed. -/
theorem Position.ofOffset_unifyNewlines {cs : List Char} {o : Nat} (h : PairedReturns cs)
    (ho : Gapless (cs.drop o)) :
    ofOffset (unifyNewlines cs) (unifiedOffset cs o) = ofOffset cs o := by
  have hcut : unifyNewlines cs = unifyNewlines (cs.take o) ++ unifyNewlines (cs.drop o) := by
    rw [← unifyNewlines_append (Or.inr ho.head?_ne), List.take_append_drop]
  have hpaired : PairedReturns (cs.take o) := by
    intro i hi
    rw [List.getElem?_take] at hi ⊢
    by_cases hlt : i < o
    · rw [if_pos hlt] at hi
      have hnext := h i hi
      -- a line feed at the place itself would be in a gap
      have hne : i + 1 ≠ o := by
        rintro rfl
        rw [← List.head?_drop] at hnext
        exact ho.head?_ne hnext
      rw [if_pos (by omega)]
      exact hnext
    · rw [if_neg hlt] at hi
      cases hi
  rw [ofOffset, ofOffset, unifiedOffset, hcut, List.take_left,
    foldl_advance_unifyNewlines hpaired]

/-- **Reading a file is reading its text.**  With its line breaks unified a text is the same
program, or has a fault for the same reason and with the same wording.  The fault is on the same
line and in the same column, if every carriage return of the text stands in front of a line
feed. -/
theorem Stmt.parseFile_eq_parse (text : String) :
    (∃ s, parse text = .ok s ∧ parseFile text = .ok s) ∨
      ∃ e e', parse text = .error e ∧ parseFile text = .error e' ∧ e'.fault = e.fault ∧
        e'.text = e.text ∧ (PairedReturns text.toList → e'.position = e.position) := by
  obtain ⟨ps, gap, rest, hcut⟩ := exists_cut text.toList
  have hread : Unfinished.start.read
        (TokenStream.ofString (String.ofList (unifyNewlines text.toList))) =
      (Unfinished.start.read (TokenStream.ofString text)).mapError
        (Prod.map id (unifiedOffset text.toList)) := by
    rw [TokenStream.ofString, String.toList_ofList]
    exact @Cut.read_unifyNewlines _ _ _ _ hcut Unfinished.start [] (by decide)
  cases hr : Unfinished.start.read (TokenStream.ofString text) with
  | ok s =>
    rw [hr] at hread
    exact Or.inl ⟨s, parse_eq_ok_iff_read.mpr hr, parse_eq_ok_iff_read.mpr hread⟩
  | error cause =>
    obtain ⟨fault, o⟩ := cause
    have hstops := (stopsAt_of_read hr).2
    rw [hr] at hread
    refine Or.inr ⟨⟨fault, o, Position.ofOffset text.toList o⟩,
      ⟨fault, unifiedOffset text.toList o, Position.ofOffset (unifyNewlines text.toList)
        (unifiedOffset text.toList o)⟩, ?_, ?_, rfl, rfl, fun hpaired => ?_⟩
    · rw [parse, hr]
    · rw [parseFile, parse, hread, String.toList_ofList]
      rfl
    · exact Position.ofOffset_unifyNewlines hpaired hstops.gapless_drop

/-- The sign that is no token is on the third line for both readers, though two carriage returns
stand in front of it. -/
theorem parseFile_eq_parse_unequal :
    PairedReturns "X := 1;\r\n\r\n  Y = 2".toList ∧
    Stmt.parse "X := 1;\r\n\r\n  Y = 2" = .error ⟨.lexical (.illegal '='), 15, ⟨3, 5⟩⟩ ∧
    ∃ e, Stmt.parseFile "X := 1;\r\n\r\n  Y = 2" = .error e ∧
      e.text = "illegal character '='" ∧ e.position = ⟨3, 5⟩ := by
  have hstream : TokenStream.ofString "X := 1;\r\n\r\n  Y = 2" =
      .token (.var "X") 0 1 (.token .assign 2 1 (.token (.number 1) 5 1 (.token .semi 6 1
        (.token (.var "Y") 13 3 (.fault (.illegal '=') 15))))) := by decide +kernel
  have hparse : Stmt.parse "X := 1;\r\n\r\n  Y = 2" =
      .error ⟨.lexical (.illegal '='), 15, ⟨3, 5⟩⟩ := by
    rw [Stmt.parse, hstream]
    rfl
  have hpaired : PairedReturns "X := 1;\r\n\r\n  Y = 2".toList := by
    intro i hi
    have hall : ∀ i < 18, "X := 1;\r\n\r\n  Y = 2".toList[i]? = some '\r' →
        "X := 1;\r\n\r\n  Y = 2".toList[i + 1]? = some '\n' := by decide
    obtain ⟨hlt, -⟩ := List.getElem?_eq_some_iff.mp hi
    exact hall i hlt hi
  refine ⟨hpaired, hparse, ?_⟩
  rcases Stmt.parseFile_eq_parse "X := 1;\r\n\r\n  Y = 2" with
    ⟨s, hs, -⟩ | ⟨e, e', he, he', -, htext, hposition⟩
  · rw [hparse] at hs
    cases hs
  · rw [hparse] at he
    cases he
    exact ⟨e', he', htext, hposition hpaired⟩

end WhileLang
