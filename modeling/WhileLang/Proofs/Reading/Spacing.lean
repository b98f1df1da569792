import Mathlib.Data.List.Chain
import WhileLang.Proofs.Reading.Parse
import WhileLang.Proofs.Reading.Segments

/-!
# Blanks between tokens

Most tokens can be written one behind the other, with nothing in between.  Only two words make
one longer word, and only two numbers one longer number (`Token.runsInto`): the first character
of a token goes on with another token in these cases and in no other one
(`Token.continuedBy_of_spells`).

So segments that are spaced there are what their text is cut into (`Spaced.cut`), and a text is cut
into no other segments (`Cut.spaced`).  What is read then depends on the tokens alone, and not on
the gaps between them or on their spellings (`Unfinished.read_congr`).
-/

namespace WhileLang

namespace Token

def isWord : Token → Bool
  | .var _ => true
  | .keyword _ => true
  | _ => false

def isNumber : Token → Bool
  | .number _ => true
  | _ => false

/-- Whether two tokens make one when nothing stands between them. -/
def runsInto (t u : Token) : Bool := t.isWord && u.isWord || t.isNumber && u.isNumber

theorem Spells.head {t : Token} {c : Char} {cs : List Char} (h : t.Spells (c :: cs)) :
    c.isAlpha = t.isWord ∧ c.isDigit = t.isNumber ∧ c ≠ '=' := by
  generalize hw : c :: cs = w at h
  cases h with
  | var _ hu =>
    subst hw
    have hc := hu c List.mem_cons_self
    have hrange := toNat_of_isUpper hc
    have ha := isAlpha_of_isUpper hc
    exact ⟨ha, isDigit_eq_false_of_isAlpha ha, fun he => by subst he; exact absurd hc (by decide)⟩
  | number _ hd =>
    subst hw
    have hc := hd c List.mem_cons_self
    refine ⟨?_, hc, fun he => by subst he; exact absurd hc (by decide)⟩
    show c.isAlpha = false
    rw [Bool.eq_false_iff]
    intro ha
    rw [isDigit_eq_false_of_isAlpha ha] at hc
    cases hc
  | op op => cases op <;> cases hw <;> decide
  | keyword k => cases k <;> cases hw <;> decide
  | assign => cases hw; decide
  | lparen => cases hw; decide
  | rparen => cases hw; decide
  | semi => cases hw; decide

/-- A token goes on with the first character of another one exactly if it runs into it. -/
theorem continuedBy_of_spells (t : Token) {u : Token} {c : Char} {cs : List Char}
    (h : u.Spells (c :: cs)) : t.continuedBy c = t.runsInto u := by
  obtain ⟨ha, hd, he⟩ := h.head
  cases t with
  | var => simp [continuedBy, runsInto, isWord, isNumber, ha]
  | keyword => simp [continuedBy, runsInto, isWord, isNumber, ha]
  | number => simp [continuedBy, runsInto, isWord, isNumber, hd]
  | op op => cases op <;> simp [continuedBy, runsInto, isWord, isNumber, he]
  | _ => rfl

theorem endsBefore_of_isGap (t : Token) {gap : List Char} (h : IsGap gap) : t.EndsBefore gap :=
  fun c hc => t.continuedBy_of_isBlank (h c (List.mem_of_mem_head? hc))

/-- A token ends before a segment, unless it runs into it. -/
theorem endsBefore_chars_iff (t : Token) {p : Segment} (hg : IsGap p.gap)
    (hs : p.token.Spells p.lexeme) (rest : List Char) :
    t.EndsBefore (p.chars ++ rest) ↔ (t.runsInto p.token = true → p.gap ≠ []) := by
  obtain ⟨gap, u, lexeme⟩ := p
  obtain ⟨c, cs, rfl⟩ := List.exists_cons_of_ne_nil hs.ne_nil
  cases gap with
  | nil =>
    have hhead := t.continuedBy_of_spells hs
    constructor
    · intro hend hruns
      rw [← hhead, hend c rfl] at hruns
      cases hruns
    · intro hruns
      refine endsBefore_cons ?_
      rw [hhead, Bool.eq_false_iff]
      exact fun h => absurd rfl (hruns h)
  | cons d gap =>
    exact ⟨fun _ _ => List.cons_ne_nil d gap,
      fun _ => endsBefore_cons (t.continuedBy_of_isBlank (hg d List.mem_cons_self))⟩

end Token

/-! ### Spaced segments -/

/-- The segments can be written one behind the other: there are blanks in front of a token that the
one before it runs into. -/
structure Spaced (ps : List Segment) : Prop where
  gaps : ∀ p ∈ ps, IsGap p.gap
  spells : ∀ p ∈ ps, p.token.Spells p.lexeme
  apart : ps.IsChain fun p q => p.token.runsInto q.token = true → q.gap ≠ []

theorem spaced_nil : Spaced [] :=
  ⟨fun _ h => absurd h List.not_mem_nil, fun _ h => absurd h List.not_mem_nil, .nil⟩

theorem Spaced.cut {ps : List Segment} {gap : List Char} (h : Spaced ps) (hg : IsGap gap) :
    Cut (ps.flatMap Segment.chars ++ gap) ps gap [] := by
  induction ps with
  | nil =>
    have hlast := Cut.last hg (Or.inl (Eq.refl []))
    rwa [List.append_nil] at hlast
  | cons p ps ih =>
    obtain ⟨hgap, hgaps⟩ := List.forall_mem_cons.mp h.gaps
    obtain ⟨hs, hspells⟩ := List.forall_mem_cons.mp h.spells
    have hend : p.token.EndsBefore (ps.flatMap Segment.chars ++ gap) := by
      cases ps with
      | nil => exact p.token.endsBefore_of_isGap hg
      | cons q ps =>
        rw [List.flatMap_cons, List.append_assoc,
          p.token.endsBefore_chars_iff (hgaps q List.mem_cons_self) (hspells q List.mem_cons_self)]
        exact (List.isChain_cons_cons.mp h.apart).1
    have hcut := Cut.segment hgap hs hend (ih ⟨hgaps, hspells, h.apart.tail⟩)
    rw [List.flatMap_cons, Segment.chars]
    simpa only [List.append_assoc] using hcut

theorem Cut.spaced {cs gap rest : List Char} {ps : List Segment} (h : Cut cs ps gap rest) :
    Spaced ps := by
  induction h with
  | last => exact spaced_nil
  | @segment p cs gap rest ps hg hs hend h ih =>
    refine ⟨List.forall_mem_cons.mpr ⟨hg, ih.gaps⟩, List.forall_mem_cons.mpr ⟨hs, ih.spells⟩, ?_⟩
    cases h with
    | last => exact .singleton p
    | @segment q cs _ _ ps hg' hs' _ _ =>
      rw [← List.append_assoc] at hend
      exact .cons_cons ((p.token.endsBefore_chars_iff hg' hs' cs).mp hend) ih.apart

/-! ### What is read -/

/-- What is read off streams without faults depends on their tokens alone. -/
theorem Unfinished.read_congr {stream stream' : TokenStream}
    (ht : stream.tokens = stream'.tokens) (h : ∃ line, stream.ending = .ok line)
    (h' : ∃ line, stream'.ending = .ok line) (u : Unfinished) :
    (u.read stream).mapError Prod.fst = (u.read stream').mapError Prod.fst := by
  induction stream generalizing stream' u with
  | finish offset line =>
    cases stream' with
    | finish offset' line' =>
      rw [read, read]
      cases u.finish? <;> rfl
    | fault => obtain ⟨line', hl⟩ := h'; cases hl
    | token => cases ht
  | fault => obtain ⟨line, hl⟩ := h; cases hl
  | token t offset line rest ih =>
    cases stream' with
    | finish => cases ht
    | fault => cases ht
    | token t' offset' line' rest' =>
      obtain ⟨rfl, hrest⟩ := List.cons.inj ht
      rw [read, read]
      cases u.step t with
      | none => rfl
      | some v => exact ih hrest h h' v

/-- The text is the tokens in order, each in some spelling, with gaps before, between and behind
them that may be empty but where one token runs into the next. -/
def Writes (ts : List Token) (text : String) : Prop :=
  ∃ ps gap, Spaced ps ∧ IsGap gap ∧ ps.map Segment.token = ts ∧
    text.toList = ps.flatMap Segment.chars ++ gap

theorem writes_iff {ts : List Token} {text : String} :
    Writes ts text ↔ (TokenStream.ofString text).tokens = ts ∧
      ∃ line, (TokenStream.ofString text).ending = .ok line := by
  constructor
  · rintro ⟨ps, gap, hs, hg, rfl, htext⟩
    have hcut := hs.cut hg
    rw [← htext] at hcut
    exact ⟨hcut.tokens_eq, hcut.exists_ending_iff.mpr rfl⟩
  · rintro ⟨rfl, hend⟩
    obtain ⟨ps, gap, rest, hcut⟩ := exists_cut text.toList
    obtain rfl := hcut.exists_ending_iff.mp hend
    have htext := hcut.chars_eq
    rw [List.append_nil] at htext
    exact ⟨ps, gap, hcut.spaced, hcut.isGap, hcut.tokens_eq.symm, htext⟩

namespace Stmt

theorem parse_eq_or_of_read {text text' : String}
    (h : (Unfinished.start.read (TokenStream.ofString text)).mapError Prod.fst =
      (Unfinished.start.read (TokenStream.ofString text')).mapError Prod.fst) :
    (∃ s, parse text = .ok s ∧ parse text' = .ok s) ∨
      ∃ e e', parse text = .error e ∧ parse text' = .error e' ∧ e.fault = e'.fault := by
  rw [parse, parse]
  cases hr : Unfinished.start.read (TokenStream.ofString text) with
  | ok s =>
    rw [hr] at h
    cases hr' : Unfinished.start.read (TokenStream.ofString text') with
    | ok s' =>
      rw [hr'] at h
      cases h
      exact Or.inl ⟨s, rfl, rfl⟩
    | error cause' =>
      rw [hr'] at h
      cases h
  | error cause =>
    rw [hr] at h
    cases hr' : Unfinished.start.read (TokenStream.ofString text') with
    | ok s' =>
      rw [hr'] at h
      cases h
    | error cause' =>
      rw [hr'] at h
      obtain ⟨fault, o⟩ := cause
      obtain ⟨fault', o'⟩ := cause'
      cases h
      exact Or.inr ⟨_, _, rfl, rfl, rfl⟩

/-- **Gaps and spellings make no difference.**  Tokens that are written in order, with any gaps
before, between and behind them, are read in this order; only between two words and between two
numbers a gap must not be empty, and every text that is read without a fault is written so.
Hence two texts of the same tokens are the same program, or have the same fault with the same
wording. -/
theorem parse_of_writes :
    (∀ ts text, Writes ts text ↔ (TokenStream.ofString text).tokens = ts ∧
      ∃ line, (TokenStream.ofString text).ending = .ok line) ∧
    ∀ ts text text', Writes ts text → Writes ts text' →
      (∃ s, parse text = .ok s ∧ parse text' = .ok s) ∨
        ∃ e e', parse text = .error e ∧ parse text' = .error e' ∧ e.text = e'.text := by
  refine ⟨fun ts text => writes_iff, fun ts text text' h h' => ?_⟩
  obtain ⟨ht, hend⟩ := writes_iff.mp h
  obtain ⟨ht', hend'⟩ := writes_iff.mp h'
  rcases parse_eq_or_of_read (Unfinished.read_congr (ht.trans ht'.symm) hend hend' _) with
    hprogram | ⟨e, e', he, he', hfault⟩
  · exact Or.inl hprogram
  · refine Or.inr ⟨e, e', he, he', ?_⟩
    rw [ParseError.text, ParseError.text, hfault]

end Stmt

def thresholdTokens : List Token :=
  [.keyword .ifWord, .var "X", .op .ge, .number 1, .keyword .thenWord, .var "Y", .assign,
    .number 2, .keyword .elseWord, .keyword .skipWord, .keyword .endifWord]

/-- The program `if X >= 1 then Y := 2 else skip endif`. -/
def threshold : Stmt :=
  .branch (.bin .ge (.var "X") (.lit (.int 1))) (.assign "Y" (.lit (.int 2))) .skip

theorem statement_threshold : Grammar.Statement thresholdTokens threshold :=
  .simple (.branch (.bin .ge (.var "X") (.operand (.number 1)))
    (.simple (.assign "Y" (.operand (.number 2)))) (.simple .skip))

/-- Nothing has to stand between a number and a keyword; two words stand apart, on one line or
on two. -/
theorem parse_of_writes_threshold :
    Writes thresholdTokens "if X>=1then Y:=2else skip endif" ∧
    Writes thresholdTokens "\r\nif\tX >= 01 then\n  Y := 2\r\nelse skip\nendif " ∧
    Stmt.parse "if X>=1then Y:=2else skip endif" = .ok threshold ∧
    Stmt.parse "\r\nif\tX >= 01 then\n  Y := 2\r\nelse skip\nendif " = .ok threshold := by
  obtain ⟨hwrites, hsame⟩ := Stmt.parse_of_writes
  have htight : Writes thresholdTokens "if X>=1then Y:=2else skip endif" :=
    (hwrites _ _).mpr ⟨by decide +kernel, 1, by decide +kernel⟩
  have hwide : Writes thresholdTokens
      "\r\nif\tX >= 01 then\n  Y := 2\r\nelse skip\nendif " :=
    (hwrites _ _).mpr ⟨by decide +kernel, 5, by decide +kernel⟩
  have hparse : Stmt.parse "if X>=1then Y:=2else skip endif" = .ok threshold := by
    obtain ⟨htokens, hend⟩ := (hwrites _ _).mp htight
    exact Stmt.parse_eq_ok_iff.mpr ⟨hend, by rw [htokens]; exact statement_threshold⟩
  refine ⟨htight, hwide, hparse, ?_⟩
  rcases hsame _ _ _ htight hwide with ⟨s, hs, hs'⟩ | ⟨e, _, he, _⟩
  · rw [hparse] at hs
    cases hs
    exact hs'
  · rw [hparse] at he
    cases he

end WhileLang
