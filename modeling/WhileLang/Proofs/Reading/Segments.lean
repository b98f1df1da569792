import WhileLang.Proofs.Reading.Layout
import WhileLang.Proofs.Reading.Stream
import WhileLang.Proofs.Text.Line

/-!
# Texts in segments

A text falls into segments, each of them a gap and a lexeme, up to a last gap behind which no token
starts (`Cut`).  A lexeme spells its token and goes as far as it can.  There is one way to cut a
text (`exists_cut`, `Cut.unique`), since what does not begin with a gap begins with one lexeme or
with none at all.

The reader finds these segments.  `TokenStream.behind` is what it finds behind some characters that
have been read already; its offset and its line are those of the place, so each segment of a text
is found where it stands (`Cut.entries_eq`), and the end of the stream is the end of the segments
(`Cut.ending_eq`).
-/

namespace WhileLang

/-! ### Gaps -/

/-- Nothing but characters that separate tokens. -/
def IsGap (cs : List Char) : Prop := ∀ c ∈ cs, Lexeme.isBlank c = true

theorem isGap_nil : IsGap [] := fun c hc => by cases hc

def Gapless (cs : List Char) : Prop := ∀ c, cs.head? = some c → Lexeme.isBlank c = false

theorem gapless_nil : Gapless [] := fun c hc => by cases hc

theorem Token.Spells.gapless {t : Token} {cs : List Char} (h : t.Spells cs) (rest : List Char) :
    Gapless (cs ++ rest) := by
  obtain ⟨c, cs, rfl⟩ := List.exists_cons_of_ne_nil h.ne_nil
  intro d hd
  cases hd
  exact h.isBlank_eq_false List.mem_cons_self

theorem LexicalFault.Begins.gapless {cause : LexicalFault} {cs : List Char}
    (h : cause.Begins cs) : Gapless cs := by
  intro c hc
  obtain ⟨rest, rfl⟩ := List.head?_eq_some_iff.mp hc
  rw [← Lexeme.ofChars_eq_fault_iff] at h
  rw [Bool.eq_false_iff]
  intro hb
  rw [Lexeme.ofChars_of_isBlank hb] at h
  cases h

theorem IsGap.eq_of_append_eq {gap gap' cs cs' : List Char} (hg : IsGap gap) (hg' : IsGap gap')
    (hc : Gapless cs) (hc' : Gapless cs') (h : gap ++ cs = gap' ++ cs') :
    gap = gap' ∧ cs = cs' :=
  append_inj_of_class hg hg' hc hc' h

/-! ### What stands behind a gap -/

/-- A lexeme that ends where it has to is the only one there. -/
theorem Token.Spells.unique {t u : Token} {cs cs' rest rest' : List Char} (ht : t.Spells cs)
    (hend : t.EndsBefore rest) (hu : u.Spells cs') (hend' : u.EndsBefore rest')
    (h : cs ++ rest = cs' ++ rest') : t = u ∧ cs = cs' ∧ rest = rest' := by
  obtain ⟨c, cs, rfl⟩ := List.exists_cons_of_ne_nil ht.ne_nil
  obtain ⟨d, cs', rfl⟩ := List.exists_cons_of_ne_nil hu.ne_nil
  rw [List.cons_append, List.cons_append] at h
  obtain ⟨rfl, htail⟩ := List.cons.inj h
  have hread := Lexeme.ofChars_of_spells ht hend
  rw [htail, Lexeme.ofChars_of_spells hu hend'] at hread
  obtain ⟨hut, hlength⟩ := Lexeme.token.inj hread
  obtain ⟨hcs, hrest⟩ := List.append_inj htail hlength.symm
  exact ⟨hut.symm, by rw [hcs], hrest⟩

/-- Where a lexeme stands and ends where it has to, a token starts. -/
theorem LexicalFault.Begins.not_spells {cause : LexicalFault} {t : Token} {cs rest : List Char}
    (h : cause.Begins (cs ++ rest)) (ht : t.Spells cs) : ¬t.EndsBefore rest := by
  intro hend
  obtain ⟨c, cs, rfl⟩ := List.exists_cons_of_ne_nil ht.ne_nil
  rw [List.cons_append, ← Lexeme.ofChars_eq_fault_iff, Lexeme.ofChars_of_spells ht hend] at h
  cases h

/-- No lexeme of any token is longer than one that ends where it has to. -/
theorem Token.Spells.length_le {t u : Token} {cs cs' rest : List Char} (ht : t.Spells cs)
    (hend : t.EndsBefore rest) (hu : u.Spells cs') (h : cs' <+: cs ++ rest) :
    cs'.length ≤ cs.length := by
  rw [← Nat.not_lt]
  intro hlt
  obtain ⟨more, rfl⟩ :=
    List.prefix_of_prefix_length_le (List.prefix_append cs rest) h (Nat.le_of_lt hlt)
  have hmore : t.EndsBefore more := by
    intro c hc
    obtain ⟨later, rfl⟩ := List.head?_eq_some_iff.mp hc
    obtain ⟨later', hlater⟩ := (List.prefix_append_right_inj cs).mp h
    exact hend c (by rw [← hlater]; rfl)
  -- with nothing behind it the longer one ends too, so the two are the same
  obtain ⟨-, hcs, -⟩ := ht.unique hmore hu u.endsBefore_nil (List.append_nil _).symm
  rw [← hcs] at hlt
  exact Nat.lt_irrefl _ hlt

/-! ### Cuts -/

/-- A token of a text: the gap in front of it, and what it is written with. -/
structure Segment where
  gap : List Char
  token : Token
  lexeme : List Char

namespace Segment

def chars (p : Segment) : List Char := p.gap ++ p.lexeme

/-- The tokens of segments that stand behind some characters, with their offsets and lines. -/
def entries (front : List Char) : List Segment → List (Token × Nat × Nat)
  | [] => []
  | p :: ps =>
    (p.token, (front ++ p.gap).length, (front ++ p.gap).count '\n' + 1) ::
      entries (front ++ p.gap ++ p.lexeme) ps

theorem map_fst_entries (front : List Char) (ps : List Segment) :
    (entries front ps).map Prod.fst = ps.map token := by
  induction ps generalizing front with
  | nil => rfl
  | cons p ps ih => rw [entries, List.map_cons, List.map_cons, ih]

end Segment

/-- The characters fall into segments, a last gap, and a rest that begins with no token. -/
inductive Cut : List Char → List Segment → List Char → List Char → Prop
  | last {gap rest : List Char} (hg : IsGap gap)
      (hr : rest = [] ∨ ∃ cause : LexicalFault, cause.Begins rest) : Cut (gap ++ rest) [] gap rest
  | segment {p : Segment} {cs gap rest : List Char} {ps : List Segment} (hg : IsGap p.gap)
      (hs : p.token.Spells p.lexeme) (hend : p.token.EndsBefore cs) (h : Cut cs ps gap rest) :
      Cut (p.gap ++ (p.lexeme ++ cs)) (p :: ps) gap rest

theorem gapless_of_rest {cs : List Char}
    (h : cs = [] ∨ ∃ cause : LexicalFault, cause.Begins cs) : Gapless cs := by
  rcases h with rfl | ⟨cause, h⟩
  · exact gapless_nil
  · exact h.gapless

namespace Cut

variable {cs gap rest : List Char} {ps : List Segment}

/-- A blank in front of a text belongs to its first gap. -/
theorem exists_cons {c : Char} (hc : Lexeme.isBlank c = true) (h : Cut cs ps gap rest) :
    ∃ ps' gap', Cut (c :: cs) ps' gap' rest := by
  cases h with
  | last hg hr => exact ⟨[], c :: gap, .last (List.forall_mem_cons.mpr ⟨hc, hg⟩) hr⟩
  | @segment p cs _ _ ps hg hs hend h =>
    have hgap : IsGap (c :: p.gap) := List.forall_mem_cons.mpr ⟨hc, hg⟩
    exact ⟨_, gap, Cut.segment (p := ⟨c :: p.gap, p.token, p.lexeme⟩) hgap hs hend h⟩

theorem rest_cases (h : Cut cs ps gap rest) :
    rest = [] ∨ ∃ cause : LexicalFault, cause.Begins rest := by
  induction h with
  | last _ hr => exact hr
  | segment _ _ _ _ ih => exact ih

theorem isGap (h : Cut cs ps gap rest) : IsGap gap := by
  induction h with
  | last hg _ => exact hg
  | segment _ _ _ _ ih => exact ih

theorem chars_eq (h : Cut cs ps gap rest) : cs = ps.flatMap Segment.chars ++ gap ++ rest := by
  induction h with
  | last => rfl
  | @segment p cs gap rest ps _ _ _ _ ih =>
    rw [List.flatMap_cons, Segment.chars, List.append_assoc, List.append_assoc, List.append_assoc,
      ← List.append_assoc (ps.flatMap Segment.chars), ← ih]

theorem unique {gap' rest' : List Char} {ps' : List Segment} (h : Cut cs ps gap rest)
    (h' : Cut cs ps' gap' rest') : ps = ps' ∧ gap = gap' ∧ rest = rest' := by
  induction h generalizing ps' gap' rest' with
  | @last gap rest hg hr =>
    generalize hw : gap ++ rest = w at h'
    cases h' with
    | last hg' hr' =>
      obtain ⟨rfl, rfl⟩ := hg.eq_of_append_eq hg' (gapless_of_rest hr) (gapless_of_rest hr') hw
      exact ⟨rfl, rfl, rfl⟩
    | segment hg' hs' hend' _ =>
      obtain ⟨-, rfl⟩ := hg.eq_of_append_eq hg' (gapless_of_rest hr) (hs'.gapless _) hw
      rcases hr with hr | ⟨cause, hr⟩
      · exact absurd (List.append_eq_nil_iff.mp hr).1 hs'.ne_nil
      · exact absurd hend' (hr.not_spells hs')
  | @segment p cs gap rest ps hg hs hend h ih =>
    generalize hw : p.gap ++ (p.lexeme ++ cs) = w at h'
    cases h' with
    | last hg' hr' =>
      obtain ⟨-, rfl⟩ := hg.eq_of_append_eq hg' (hs.gapless _) (gapless_of_rest hr') hw
      rcases hr' with hr' | ⟨cause, hr'⟩
      · exact absurd (List.append_eq_nil_iff.mp hr').1 hs.ne_nil
      · exact absurd hend (hr'.not_spells hs)
    | @segment p' _ _ _ _ hg' hs' hend' h' =>
      obtain ⟨hgap, hlex⟩ := hg.eq_of_append_eq hg' (hs.gapless _) (hs'.gapless _) hw
      obtain ⟨htoken, hlexeme, rfl⟩ := hs.unique hend hs' hend' hlex
      obtain ⟨rfl, rfl, rfl⟩ := ih h'
      obtain ⟨gap, token, lexeme⟩ := p
      obtain ⟨gap', token', lexeme'⟩ := p'
      cases hgap
      cases htoken
      cases hlexeme
      exact ⟨rfl, rfl, rfl⟩

theorem of_mem_entries (h : Cut cs ps gap rest) {front : List Char} {t : Token} {o l : Nat}
    (hm : (t, o, l) ∈ Segment.entries front ps) :
    ∃ before lexeme after, front ++ cs = before ++ (lexeme ++ after) ∧ o = before.length ∧
      l = before.count '\n' + 1 ∧ t.Spells lexeme ∧ t.EndsBefore after := by
  induction h generalizing front with
  | last => cases hm
  | @segment p cs gap rest ps _ hs hend _ ih =>
    rcases List.mem_cons.mp hm with he | hm
    · cases he
      exact ⟨front ++ p.gap, p.lexeme, cs, by rw [List.append_assoc], rfl, rfl, hs, hend⟩
    · obtain ⟨before, lexeme, after, htext, hplace⟩ := ih hm
      refine ⟨before, lexeme, after, ?_, hplace⟩
      rw [← htext, List.append_assoc, List.append_assoc]

end Cut

theorem exists_cut (cs : List Char) : ∃ ps gap rest, Cut cs ps gap rest := by
  induction hn : cs.length using Nat.strongRecOn generalizing cs with
  | ind n ih =>
    cases cs with
    | nil => exact ⟨[], [], [], .last isGap_nil (Or.inl rfl)⟩
    | cons c cs =>
      subst hn
      cases hc : Lexeme.ofChars c cs with
      | blank =>
        obtain ⟨ps, gap, rest, h⟩ := ih cs.length (Nat.lt_succ_self _) cs rfl
        obtain ⟨ps', gap', h'⟩ := h.exists_cons (Lexeme.isBlank_of_ofChars hc)
        exact ⟨ps', gap', rest, h'⟩
      | fault cause =>
        have hbegins := Lexeme.ofChars_eq_fault_iff.mp hc
        exact ⟨[], [], c :: cs, .last isGap_nil (Or.inr ⟨cause, hbegins⟩)⟩
      | token t more =>
        have hlt : (cs.drop more).length < (c :: cs).length := by
          rw [List.length_drop, List.length_cons]
          omega
        obtain ⟨ps, gap, rest, h⟩ := ih _ hlt (cs.drop more) rfl
        obtain ⟨hs, hend⟩ := Lexeme.spells_of_ofChars hc
        have hcut := Cut.segment (p := ⟨[], t, c :: cs.take more⟩) isGap_nil hs hend h
        rw [List.nil_append, List.cons_append, List.take_append_drop] at hcut
        exact ⟨_, gap, rest, hcut⟩

/-! ### What the reader finds -/

namespace TokenStream

/-- The tokens of what stands behind some characters of a text. -/
def behind (front cs : List Char) : TokenStream := ofChars front.length (front.count '\n' + 1) cs

theorem behind_nil (front : List Char) :
    behind front [] = .finish front.length (front.count '\n' + 1) := by
  rw [behind, ofChars]

theorem behind_of_isGap {gap : List Char} (hg : IsGap gap) (front cs : List Char) :
    behind front (gap ++ cs) = behind (front ++ gap) cs := by
  induction gap generalizing front with
  | nil => rw [List.nil_append, List.append_nil]
  | cons c gap ih =>
    obtain ⟨hc, hg⟩ := List.forall_mem_cons.mp hg
    have hlength : front.length + 1 = (front ++ [c]).length := by
      rw [List.length_append, List.length_singleton]
    have hline : (if c = '\n' then front.count '\n' + 1 + 1 else front.count '\n' + 1) =
        (front ++ [c]).count '\n' + 1 := by
      rw [List.count_append, List.count_singleton]
      by_cases hn : c = '\n'
      · rw [if_pos hn, if_pos (beq_iff_eq.mpr hn)]
      · rw [if_neg hn, if_neg (by simpa using hn), Nat.add_zero]
    have htail := ih hg (front ++ [c])
    rw [List.append_assoc, List.singleton_append] at htail
    rw [List.cons_append, behind, ofChars, Lexeme.ofChars_of_isBlank hc, ← htail, behind,
      ← hlength, ← hline]

theorem behind_of_spells {t : Token} {lexeme cs : List Char} (ht : t.Spells lexeme)
    (hend : t.EndsBefore cs) (front : List Char) :
    behind front (lexeme ++ cs) =
      .token t front.length (front.count '\n' + 1) (behind (front ++ lexeme) cs) := by
  have hline : lexeme.count '\n' = 0 :=
    List.count_eq_zero.mpr fun hn => absurd (ht.isBlank_eq_false hn) (by decide)
  rw [behind, ofChars_of_spells ht hend, behind, List.length_append, List.count_append, hline,
    Nat.add_zero]

theorem behind_of_begins {cause : LexicalFault} {cs : List Char} (h : cause.Begins cs)
    (front : List Char) : behind front cs = .fault cause front.length := by
  cases cs with
  | nil =>
    cases h with
    | badWord hne => exact absurd rfl hne
  | cons c cs => rw [behind, ofChars, Lexeme.ofChars_eq_fault_iff.mpr h]

end TokenStream

namespace Cut

variable {cs gap rest : List Char} {ps : List Segment}

/-- The tokens are found where the segments have them. -/
theorem entries_eq (h : Cut cs ps gap rest) (front : List Char) :
    (TokenStream.behind front cs).entries = Segment.entries front ps := by
  induction h generalizing front with
  | last hg hr =>
    rw [TokenStream.behind_of_isGap hg]
    rcases hr with rfl | ⟨cause, hr⟩
    · rw [TokenStream.behind_nil]
      rfl
    · rw [TokenStream.behind_of_begins hr]
      rfl
  | segment hg hs hend _ ih =>
    rw [TokenStream.behind_of_isGap hg, TokenStream.behind_of_spells hs hend, TokenStream.entries,
      ih, Segment.entries]

theorem ending_eq (h : Cut cs ps gap rest) (front : List Char) :
    (TokenStream.behind front cs).ending =
      (TokenStream.behind (front ++ (ps.flatMap Segment.chars ++ gap)) rest).ending := by
  induction h generalizing front with
  | last hg _ => rw [TokenStream.behind_of_isGap hg, List.flatMap_nil, List.nil_append]
  | @segment p cs gap rest ps hg hs hend _ ih =>
    rw [TokenStream.behind_of_isGap hg, TokenStream.behind_of_spells hs hend, TokenStream.ending,
      ih, List.flatMap_cons, Segment.chars]
    simp only [List.append_assoc]

theorem tokens_eq {text : String} (h : Cut text.toList ps gap rest) :
    (TokenStream.ofString text).tokens = ps.map Segment.token := by
  have hentries : (TokenStream.ofString text).entries = Segment.entries [] ps := h.entries_eq []
  rw [← TokenStream.map_fst_entries, hentries, Segment.map_fst_entries]

theorem exists_ending_iff {text : String} (h : Cut text.toList ps gap rest) :
    (∃ line, (TokenStream.ofString text).ending = .ok line) ↔ rest = [] := by
  have hending : (TokenStream.ofString text).ending =
      (TokenStream.behind (ps.flatMap Segment.chars ++ gap) rest).ending := h.ending_eq []
  rw [hending]
  rcases h.rest_cases with rfl | ⟨cause, hr⟩
  · rw [TokenStream.behind_nil]
    exact ⟨fun _ => rfl, fun _ => ⟨_, rfl⟩⟩
  · rw [TokenStream.behind_of_begins hr]
    constructor
    · rintro ⟨line, hl⟩
      cases hl
    · rintro rfl
      cases hr with
      | badWord hne => exact absurd rfl hne

end Cut

open TokenStream

/-- **The tokens of a text are the longest there are, each at its place.**  A text is cut in one
way into gaps and lexemes, up to its end or to the first place where no token starts.  The
reader finds the tokens of these lexemes where the lexemes stand, and ends as the cut does: on the
last line of the text, or with the fault of that place.  The offsets increase; the line of a token
is one more than the line feeds in front of it, which is the line of its position; and no token is
spelled by more of what stands there than the one that is found. -/
theorem TokenStream.ofString_longest_match (text : String) :
    ∃ ps gap rest, Cut text.toList ps gap rest ∧
      (∀ ps' gap' rest', Cut text.toList ps' gap' rest' →
        ps' = ps ∧ gap' = gap ∧ rest' = rest) ∧
      text.toList = ps.flatMap Segment.chars ++ gap ++ rest ∧
      (ofString text).entries = Segment.entries [] ps ∧
      (rest = [] ∧ (ofString text).ending = .ok (text.toList.count '\n' + 1) ∨
        ∃ cause : LexicalFault, cause.Begins rest ∧
          (ofString text).ending = .error (cause, (ps.flatMap Segment.chars ++ gap).length)) ∧
      ((ofString text).entries.Pairwise fun a b => a.2.1 < b.2.1) ∧
      ∀ t o line, (t, o, line) ∈ (ofString text).entries →
        line = (text.toList.take o).count '\n' + 1 ∧
        line = (Position.ofOffset text.toList o).line ∧
        ∃ lexeme, t.Spells lexeme ∧ lexeme <+: text.toList.drop o ∧
          ∀ (u : Token) (longer : List Char), u.Spells longer → longer <+: text.toList.drop o →
            longer.length ≤ lexeme.length := by
  obtain ⟨ps, gap, rest, h⟩ := exists_cut text.toList
  have hentries : (ofString text).entries = Segment.entries [] ps := h.entries_eq []
  have hending : (ofString text).ending =
      (behind (ps.flatMap Segment.chars ++ gap) rest).ending := h.ending_eq []
  refine ⟨ps, gap, rest, h, fun ps' gap' rest' h' => h'.unique h, h.chars_eq, hentries, ?_,
    pairwise_entries 0 1 text.toList, fun t o line hm => ?_⟩
  · rcases h.rest_cases with hr | ⟨cause, hr⟩
    · refine Or.inl ⟨hr, ?_⟩
      rw [hending, h.chars_eq, hr, behind_nil, List.append_nil]
      rfl
    · refine Or.inr ⟨cause, hr, ?_⟩
      rw [hending, behind_of_begins hr]
      rfl
  · rw [hentries] at hm
    obtain ⟨before, lexeme, after, htext, rfl, rfl, hs, hend⟩ := h.of_mem_entries hm
    rw [List.nil_append] at htext
    rw [Position.ofOffset_eq, htext, List.take_left, List.drop_left]
    refine ⟨rfl, rfl, lexeme, hs, List.prefix_append lexeme after, fun u longer hu hlonger => ?_⟩
    exact hs.length_le hend hu hlonger

/-- The segments of `X>=\n012 ab;` in front of the word that is no token. -/
def mixedSegments : List Segment :=
  [⟨[], .var "X", ['X']⟩, ⟨[], .op .ge, ['>', '=']⟩, ⟨['\n'], .number 12, ['0', '1', '2']⟩]

theorem cut_mixed : Cut "X>=\n012 ab;".toList mixedSegments [' '] ['a', 'b', ';'] := by
  have hspace : IsGap [' '] := List.all_eq_true.mp (by decide)
  have hbreak : IsGap ['\n'] := List.all_eq_true.mp (by decide)
  have hword : (Token.var "X").Spells ['X'] := .var (by decide) (List.all_eq_true.mp (by decide))
  have hnumber : (Token.number 12).Spells ['0', '1', '2'] :=
    @Token.Spells.number ['0', '1', '2'] (by decide) (List.all_eq_true.mp (by decide))
  have hbegins : (LexicalFault.badWord "ab").Begins ['a', 'b', ';'] :=
    Lexeme.ofChars_eq_fault_iff.mp (by decide +kernel)
  have hlast : Cut [' ', 'a', 'b', ';'] [] [' '] ['a', 'b', ';'] :=
    .last hspace (Or.inr ⟨_, hbegins⟩)
  exact .segment (p := ⟨[], .var "X", ['X']⟩) isGap_nil hword (Token.endsBefore_cons rfl)
    (.segment (p := ⟨[], .op .ge, ['>', '=']⟩) isGap_nil (.op .ge) (fun _ _ => rfl)
      (.segment (p := ⟨['\n'], .number 12, ['0', '1', '2']⟩) hbreak hnumber
        (Token.endsBefore_cons rfl) hlast))

/-- The number is found on the second line with its zero, and the word in small letters, at
offset 8, ends the tokens. -/
theorem ofString_longest_match_mixed :
    (ofString "X>=\n012 ab;").entries = [(.var "X", 0, 1), (.op .ge, 1, 1), (.number 12, 4, 2)] ∧
    (∃ cause : LexicalFault, cause.Begins ['a', 'b', ';'] ∧
      (ofString "X>=\n012 ab;").ending = .error (cause, 8)) ∧
    2 = ("X>=\n012 ab;".toList.take 4).count '\n' + 1 ∧
    ∃ lexeme, (Token.number 12).Spells lexeme ∧ lexeme <+: ['0', '1', '2', ' ', 'a', 'b', ';'] ∧
      ∀ (u : Token) (longer : List Char), u.Spells longer →
        longer <+: ['0', '1', '2', ' ', 'a', 'b', ';'] → longer.length ≤ lexeme.length := by
  obtain ⟨ps, gap, rest, -, hunique, -, hentries, hending, -, hplaces⟩ :=
    ofString_longest_match "X>=\n012 ab;"
  obtain ⟨rfl, rfl, rfl⟩ := hunique _ _ _ cut_mixed
  have hfound : (ofString "X>=\n012 ab;").entries =
      [(.var "X", 0, 1), (.op .ge, 1, 1), (.number 12, 4, 2)] := hentries
  obtain ⟨hline, -, hlexeme⟩ := hplaces (.number 12) 4 2 (by rw [hfound]; simp)
  refine ⟨hfound, ?_, hline, hlexeme⟩
  rcases hending with ⟨hr, -⟩ | hfault
  · cases hr
  · exact hfault

end WhileLang
