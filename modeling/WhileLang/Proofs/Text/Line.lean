import Mathlib.Data.List.Induction
import WhileLang.ParseError

/-!
# The lines of a text

A text is its lines with line feeds between them, and a position is a place in one of the lines or
at its end.  `Position.Locates` says so by counting characters: those of the lines in front, each
with its line feed, and those of the line itself.  It does not say how a position is found.

The text in front of a place is some whole lines and a part of the next one, and `Position.advance`
counts the lines of it and the characters of the part (`Position.foldl_advance_wholeLines`).  So
`Position.ofOffset` finds a position that locates its offset.  No other position does, since
positions that come earlier locate smaller offsets (`Position.Locates.lt_of_before`).

Seen from the place, the line is one more than the line feeds in front of it, and the column is
one more than the characters since the last of them (`Position.ofOffset_eq`).
-/

namespace WhileLang

/-- The lines of a text, which its line feeds separate. -/
def linesOf (text : List Char) : List (List Char) := text.splitOn '\n'

/-- Some lines, each with its line feed. -/
def wholeLines (lines : List (List Char)) : List Char := lines.flatMap (· ++ ['\n'])

/-- The offset at which a line begins: behind the lines in front of it. -/
def lineStart (text : List Char) (line : Nat) : Nat :=
  (wholeLines ((linesOf text).take (line - 1))).length

theorem wholeLines_cons (line : List Char) (lines : List (List Char)) :
    wholeLines (line :: lines) = line ++ '\n' :: wholeLines lines := by
  rw [wholeLines, List.flatMap_cons, List.append_assoc]
  rfl

theorem wholeLines_append (lines lines' : List (List Char)) :
    wholeLines (lines ++ lines') = wholeLines lines ++ wholeLines lines' :=
  List.flatMap_append

/-! ### Cutting a text into lines -/

theorem linesOf_wholeLines_append {lines : List (List Char)} (h : ∀ line ∈ lines, '\n' ∉ line)
    (rest : List Char) : linesOf (wholeLines lines ++ rest) = lines ++ linesOf rest := by
  induction lines with
  | nil => rfl
  | cons line lines ih =>
    have hline : '\n' ∉ line := h line List.mem_cons_self
    have hlines := ih fun l hl => h l (List.mem_cons_of_mem line hl)
    rw [wholeLines_cons, List.append_assoc, List.cons_append, linesOf,
      List.splitOn_append_cons_self, List.splitOn_eq_singleton hline, ← linesOf, hlines]
    rfl

/-- Characters without a line feed go to the first line of what follows. -/
theorem exists_linesOf_append {part : List Char} (h : '\n' ∉ part) (rest : List Char) :
    ∃ line after, linesOf (part ++ rest) = (part ++ line) :: after := by
  induction part with
  | nil =>
    obtain ⟨line, after, hrest⟩ := List.exists_cons_of_ne_nil (List.splitOn_ne_nil '\n' rest)
    exact ⟨line, after, hrest⟩
  | cons c part ih =>
    obtain ⟨hc, hpart⟩ := not_or.mp (mt List.mem_cons.mpr h)
    obtain ⟨line, after, hlines⟩ := ih hpart
    refine ⟨line, after, ?_⟩
    rw [linesOf] at hlines ⊢
    rw [List.cons_append, List.splitOn_cons_eq_if_modifyHead, hlines,
      if_neg (by simpa using Ne.symm hc)]
    rfl

/-- Every text is some whole lines and a part of the next one. -/
theorem exists_wholeLines (front : List Char) :
    ∃ before part, front = wholeLines before ++ part ∧ (∀ line ∈ before, '\n' ∉ line) ∧
      '\n' ∉ part := by
  induction front using List.reverseRecOn with
  | nil => exact ⟨[], [], rfl, List.forall_mem_nil _, List.not_mem_nil⟩
  | append_singleton front c ih =>
    obtain ⟨before, part, rfl, hbefore, hpart⟩ := ih
    by_cases hc : c = '\n'
    · refine ⟨before ++ [part], [], ?_, ?_, List.not_mem_nil⟩
      · rw [hc, wholeLines_append, wholeLines_cons, List.append_assoc, List.append_nil]
        rfl
      · intro line hline
        rcases List.mem_append.mp hline with hline | hline
        · exact hbefore line hline
        · rw [List.mem_singleton.mp hline]
          exact hpart
    · refine ⟨before, part ++ [c], List.append_assoc _ _ _, hbefore, ?_⟩
      intro hmem
      rcases List.mem_append.mp hmem with hmem | hmem
      · exact hpart hmem
      · exact hc (List.mem_singleton.mp hmem).symm

theorem exists_eq_wholeLines_append {text line : List Char} {before after : List (List Char)}
    (h : linesOf text = before ++ line :: after) :
    ∃ rest, text = wholeLines before ++ (line ++ rest) := by
  have htext : ['\n'].intercalate (before ++ line :: after) = text := by
    rw [← h]
    exact List.intercalate_splitOn '\n'
  rw [← htext]
  clear h htext
  induction before with
  | nil =>
    cases after with
    | nil =>
      refine ⟨[], ?_⟩
      rw [List.nil_append, List.intercalate_singleton, List.append_nil]
      rfl
    | cons next after =>
      refine ⟨'\n' :: ['\n'].intercalate (next :: after), ?_⟩
      rw [List.nil_append, List.intercalate_cons_cons, List.append_assoc]
      rfl
  | cons first before ih =>
    obtain ⟨rest, hrest⟩ := ih
    have hne : before ++ line :: after ≠ [] := List.append_ne_nil_of_right_ne_nil before (by simp)
    refine ⟨rest, ?_⟩
    rw [List.cons_append, List.intercalate_cons_of_ne_nil hne, hrest, wholeLines_cons,
      List.append_assoc, List.append_assoc]
    rfl

/-! ### Places -/

namespace Position

/-- The position is the place in the text with `offset` characters in front of it: one of the
lines of the text, and a column of that line or the one behind its end. -/
structure Locates (text : List Char) (p : Position) (offset : Nat) : Prop where
  one_le_line : 1 ≤ p.line
  line_le : p.line ≤ (linesOf text).length
  one_le_column : 1 ≤ p.column
  column_le : ∃ line, (linesOf text)[p.line - 1]? = some line ∧ p.column ≤ line.length + 1
  offset_eq : lineStart text p.line + p.column - 1 = offset

/-- The position comes earlier: on an earlier line, or on the same line in an earlier column. -/
def Before (p q : Position) : Prop := p.line < q.line ∨ p.line = q.line ∧ p.column < q.column

instance (p q : Position) : Decidable (p.Before q) :=
  inferInstanceAs (Decidable (p.line < q.line ∨ p.line = q.line ∧ p.column < q.column))

variable {text : List Char} {p q : Position} {a b : Nat}

theorem before_or_eq_or_before (p q : Position) : p.Before q ∨ p = q ∨ q.Before p := by
  obtain ⟨line, column⟩ := p
  obtain ⟨line', column'⟩ := q
  simp only [Before, Position.mk.injEq]
  omega

/-- A place is so many characters into a line, behind the lines in front of that one. -/
theorem locates_iff_exists : Locates text p a ↔
    ∃ before line after k, linesOf text = before ++ line :: after ∧ k ≤ line.length ∧
      p = ⟨before.length + 1, k + 1⟩ ∧ a = (wholeLines before).length + k := by
  constructor
  · rintro ⟨hline, -, hcolumn, ⟨line, hget, hle⟩, hoffset⟩
    obtain ⟨hlt, rfl⟩ := List.getElem?_eq_some_iff.mp hget
    have hlength : ((linesOf text).take (p.line - 1)).length = p.line - 1 := by
      rw [List.length_take]
      omega
    refine ⟨(linesOf text).take (p.line - 1), (linesOf text)[p.line - 1],
      (linesOf text).drop (p.line - 1 + 1), p.column - 1, ?_, by omega, ?_, ?_⟩
    · rw [List.getElem_cons_drop, List.take_append_drop]
    · rw [hlength, Nat.sub_add_cancel hline, Nat.sub_add_cancel hcolumn]
    · rw [lineStart] at hoffset
      omega
  · rintro ⟨before, line, after, k, hlines, hk, rfl, rfl⟩
    refine ⟨Nat.le_add_left 1 _, ?_, Nat.le_add_left 1 k, ⟨line, ?_, ?_⟩, ?_⟩
    · rw [hlines, List.length_append, List.length_cons]
      show before.length + 1 ≤ _
      omega
    · rw [hlines, Nat.add_sub_cancel, List.getElem?_append_right (Nat.le_refl _), Nat.sub_self]
      rfl
    · exact Nat.succ_le_succ hk
    · rw [lineStart, hlines, Nat.add_sub_cancel, List.take_left]
      rfl

theorem Locates.le_length (h : Locates text p a) : a ≤ text.length := by
  obtain ⟨before, line, after, k, hlines, hk, -, rfl⟩ := locates_iff_exists.mp h
  obtain ⟨rest, rfl⟩ := exists_eq_wholeLines_append hlines
  simp only [List.length_append]
  omega

theorem Locates.lt_of_before (hp : Locates text p a) (hq : Locates text q b) (h : p.Before q) :
    a < b := by
  obtain ⟨before, line, after, k, hlines, hk, rfl, rfl⟩ := locates_iff_exists.mp hp
  obtain ⟨before', line', after', k', hlines', hk', rfl, rfl⟩ := locates_iff_exists.mp hq
  rw [hlines] at hlines'
  rcases List.append_eq_append_iff.mp hlines' with ⟨more, hbefore', hmore⟩ | ⟨more, hbefore, -⟩
  · cases more with
    | nil =>
      rw [List.append_nil] at hbefore'
      subst hbefore'
      simp only [Before] at h
      omega
    | cons l more =>
      -- the line of the first position is one of those in front of the second one
      obtain ⟨rfl, -⟩ := List.cons.inj hmore
      rw [hbefore', wholeLines_append, wholeLines_cons]
      simp only [List.length_append, List.length_cons]
      omega
  · rw [hbefore] at h ⊢
    cases more with
    | nil =>
      rw [List.append_nil] at h ⊢
      simp only [Before] at h
      omega
    | cons l more =>
      simp only [Before, List.length_append, List.length_cons] at h
      omega

theorem Locates.unique (hp : Locates text p a) (hq : Locates text q a) : p = q := by
  rcases before_or_eq_or_before p q with h | h | h
  · exact absurd (hp.lt_of_before hq h) (Nat.lt_irrefl a)
  · exact h
  · exact absurd (hq.lt_of_before hp h) (Nat.lt_irrefl a)

theorem Locates.before_of_lt (hp : Locates text p a) (hq : Locates text q b) (h : a < b) :
    p.Before q := by
  rcases before_or_eq_or_before p q with hpq | rfl | hqp
  · exact hpq
  · have heq := hp.offset_eq.symm.trans hq.offset_eq
    omega
  · have hlt := hq.lt_of_before hp hqp
    omega

/-! ### Moving through a text -/

theorem foldl_advance_of_not_mem {part : List Char} (h : '\n' ∉ part) (p : Position) :
    part.foldl advance p = ⟨p.line, p.column + part.length⟩ := by
  induction part generalizing p with
  | nil => rfl
  | cons c part ih =>
    obtain ⟨hc, hpart⟩ := not_or.mp (mt List.mem_cons.mpr h)
    rw [List.foldl_cons, ih hpart, advance, if_neg (Ne.symm hc), List.length_cons]
    show Position.mk p.line (p.column + 1 + part.length) = _
    rw [Nat.add_right_comm, Nat.add_assoc]

/-- Whole lines lead to the beginning of the line behind them. -/
theorem foldl_advance_wholeLines {lines : List (List Char)} (h : ∀ line ∈ lines, '\n' ∉ line)
    (n : Nat) : (wholeLines lines).foldl advance ⟨n, 1⟩ = ⟨n + lines.length, 1⟩ := by
  induction lines generalizing n with
  | nil => rfl
  | cons line lines ih =>
    have hline : '\n' ∉ line := h line List.mem_cons_self
    rw [wholeLines_cons, List.foldl_append, foldl_advance_of_not_mem hline, List.foldl_cons,
      advance, if_pos rfl, ih fun l hl => h l (List.mem_cons_of_mem line hl), List.length_cons]
    show Position.mk (n + 1 + lines.length) 1 = _
    rw [Nat.add_right_comm, Nat.add_assoc]

theorem foldl_advance (cs : List Char) : cs.foldl advance start =
    ⟨cs.count '\n' + 1, (cs.reverse.takeWhile (· != '\n')).length + 1⟩ := by
  induction cs using List.reverseRecOn with
  | nil => rfl
  | append_singleton cs c ih =>
    rw [List.foldl_append, ih, List.foldl_cons, List.foldl_nil, advance, List.count_append,
      List.reverse_concat]
    by_cases hc : c = '\n'
    · rw [if_pos hc, hc, List.takeWhile_cons_of_neg (by decide), List.count_singleton_self]
      rfl
    · have hcount : [c].count '\n' = 0 := List.count_eq_zero.mpr (by simpa using Ne.symm hc)
      rw [if_neg hc, List.takeWhile_cons_of_pos (by simpa using hc), hcount, List.length_cons]

theorem ofOffset_eq (text : List Char) (offset : Nat) : ofOffset text offset =
    ⟨(text.take offset).count '\n' + 1,
      ((text.take offset).reverse.takeWhile (· != '\n')).length + 1⟩ :=
  foldl_advance (text.take offset)

/-! ### Finding the place -/

theorem locates_ofOffset {offset : Nat} (h : offset ≤ text.length) :
    Locates text (ofOffset text offset) offset := by
  obtain ⟨before, part, hfront, hbefore, hpart⟩ := exists_wholeLines (text.take offset)
  obtain ⟨line, after, hrest⟩ := exists_linesOf_append hpart (text.drop offset)
  have hlines : linesOf text = before ++ (part ++ line) :: after := by
    rw [← List.take_append_drop offset text, hfront, List.append_assoc,
      linesOf_wholeLines_append hbefore, hrest]
  have hlength : offset = (wholeLines before).length + part.length := by
    rw [← List.length_append, ← hfront, List.length_take, Nat.min_eq_left h]
  refine locates_iff_exists.mpr ⟨before, part ++ line, after, part.length, hlines, ?_, ?_, hlength⟩
  · rw [List.length_append]
    omega
  · rw [ofOffset, hfront, List.foldl_append, start, foldl_advance_wholeLines hbefore,
      foldl_advance_of_not_mem hpart]
    show Position.mk (1 + before.length) (1 + part.length) = _
    rw [Nat.add_comm 1, Nat.add_comm 1]

/-- **Lines and columns locate offsets exactly.**  Up to the end of the text, the position found for
an offset is on one of the lines, in a column of this line or behind its end, and the beginning of
the line and the characters in front of the column are the offset again; and no other position is
like that.  So different offsets have different positions, and positions come in the order of
their offsets, by lines and then by columns. -/
theorem ofOffset_exact (text : List Char) :
    (∀ p offset, Locates text p offset ↔ offset ≤ text.length ∧ ofOffset text offset = p) ∧
    (∀ a ≤ text.length, ∀ b ≤ text.length, ofOffset text a = ofOffset text b → a = b) ∧
    ∀ a ≤ text.length, ∀ b ≤ text.length,
      (ofOffset text a).Before (ofOffset text b) ↔ a < b := by
  refine ⟨fun p offset => ⟨fun h => ?_, ?_⟩, fun a ha b hb h => ?_, fun a ha b hb => ⟨?_, ?_⟩⟩
  · exact ⟨h.le_length, (locates_ofOffset h.le_length).unique h⟩
  · rintro ⟨h, rfl⟩
    exact locates_ofOffset h
  · have hlocates := locates_ofOffset ha
    rw [h] at hlocates
    exact hlocates.offset_eq.symm.trans (locates_ofOffset hb).offset_eq
  · exact (locates_ofOffset ha).lt_of_before (locates_ofOffset hb)
  · exact (locates_ofOffset ha).before_of_lt (locates_ofOffset hb)

/-- The empty line between two others has one place, in front of its line feed and behind the one
before; the end of the text is behind the last line.  There is no second column on the empty line. -/
theorem ofOffset_exact_emptyLine :
    Locates ['A', '\n', '\n', 'B'] ⟨2, 1⟩ 2 ∧ Locates ['A', '\n', '\n', 'B'] ⟨3, 2⟩ 4 ∧
    (∀ offset, ¬Locates ['A', '\n', '\n', 'B'] ⟨2, 2⟩ offset) ∧
    Before (ofOffset ['A', '\n', '\n', 'B'] 2) (ofOffset ['A', '\n', '\n', 'B'] 3) := by
  obtain ⟨hiff, -, hbefore⟩ := ofOffset_exact ['A', '\n', '\n', 'B']
  refine ⟨(hiff _ _).mpr (by decide), (hiff _ _).mpr (by decide), fun offset h => ?_,
    (hbefore 2 (by decide) 3 (by decide)).mpr (by decide)⟩
  obtain ⟨hle, heq⟩ := (hiff _ _).mp h
  have hnone : ∀ o < 5, ofOffset ['A', '\n', '\n', 'B'] o ≠ ⟨2, 2⟩ := by decide
  exact hnone offset (Nat.lt_succ_of_le hle) heq

end Position

end WhileLang
