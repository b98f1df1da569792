import WhileLang.Session
import WhileLang.Proofs.Reading.Layout

/-!
# What a line asks for

A typed line is a command or a program, and its first word decides.  `TypedLine.ofString_cases`
lists what a line may be split into, and the equivalences below it say for each command which
lines ask for it: `request_eq_leave_iff` for example, that only `EOF` by itself ends a session.

No program is taken for a command (`request_of_parse`).  The first token of a program is a name
or a keyword, so the first word of the line begins with it.  A word in small letters that is a
command is neither; and the word `EOF` would be a name, but then more text comes behind it.

Blanks at the ends of a line do not matter.  `strip` takes more characters away than those that
separate tokens, but none that belongs to a token (`Token.Spells.not_mem_blanks`), so a text
that is a program is the same program when it is stripped (`Stmt.parse_strip`).
-/

namespace WhileLang

/-! ### Programs without the blanks around them -/

theorem Token.Spells.not_mem_blanks {t : Token} {cs : List Char} (h : t.Spells cs) {c : Char}
    (hc : c ∈ cs) : ¬c ∈ blanks := by
  intro hb
  have hunseen : blanks.all (fun c => !isVisible c) = true := by decide
  have hno := List.all_eq_true.mp hunseen c hb
  rw [List.all_eq_true.mp h.all_isVisible c hc] at hno
  cases hno

theorem Lexeme.mem_blanks_of_isBlank {c : Char} (h : isBlank c = true) : c ∈ blanks := by
  simp only [isBlank, Bool.or_eq_true, beq_iff_eq] at h
  rcases h with ((rfl | rfl) | rfl) | rfl <;> decide

namespace Laid

theorem of_front {ts : List Token} {front cs : List Char} (hf : ∀ c ∈ front, c ∈ blanks)
    (h : Laid ts (front ++ cs)) : Laid ts cs := by
  induction front with
  | nil => exact h
  | cons c front ih =>
    obtain ⟨hc, hf⟩ := List.forall_mem_cons.mp hf
    generalize hw : c :: front ++ cs = w at h
    cases h with
    | done => cases hw
    | blank _ h =>
      cases hw
      exact ih hf h
    | token ht =>
      obtain ⟨d, ds, rfl⟩ := List.exists_cons_of_ne_nil ht.ne_nil
      rw [List.cons_append, List.cons_append] at hw
      obtain ⟨rfl, -⟩ := List.cons.inj hw
      exact absurd hc (ht.not_mem_blanks List.mem_cons_self)

theorem of_back {ts : List Token} {cs back : List Char} (hb : ∀ c ∈ back, c ∈ blanks)
    (h : Laid ts (cs ++ back)) : Laid ts cs := by
  generalize hw : cs ++ back = w at h
  induction h generalizing cs back with
  | done =>
    obtain ⟨rfl, -⟩ := List.append_eq_nil_iff.mp hw
    exact .done
  | blank hc h ih =>
    cases cs with
    | nil =>
      subst hw
      exact ih (List.forall_mem_cons.mp hb).2 (List.nil_append _)
    | cons d cs =>
      cases hw
      exact .blank hc (ih hb rfl)
  | @token t ts spelling rest ht hend h ih =>
    -- no part of the spelling stands behind `cs`, since there are only blanks
    have hprefix : ∃ cs', cs = spelling ++ cs' ∧ rest = cs' ++ back := by
      rcases List.append_eq_append_iff.mp hw with ⟨b, rfl, rfl⟩ | ⟨cs', rfl, rfl⟩
      · cases b with
        | nil => exact ⟨[], by simp, rfl⟩
        | cons d b =>
          exact absurd (hb d (by simp)) (ht.not_mem_blanks (by simp))
      · exact ⟨cs', rfl, rfl⟩
    obtain ⟨cs', rfl, rfl⟩ := hprefix
    refine .token ht (fun c hc => hend c ?_) (ih hb rfl)
    rw [List.head?_append, hc]
    rfl

theorem stripped {ts : List Token} {text : String} (h : Laid ts text.toList) :
    Laid ts (strip text).toList := by
  obtain ⟨front, back, htext, hf, hb, _⟩ := exists_strip text
  rw [htext] at h
  exact (h.of_front hf).of_back hb

theorem ne_nil {t : Token} {ts : List Token} {cs : List Char} (h : Laid (t :: ts) cs) :
    cs ≠ [] := by
  cases h with
  | blank => exact List.cons_ne_nil _ _
  | token ht => exact fun hnil => ht.ne_nil (List.append_eq_nil_iff.mp hnil).1

end Laid

theorem Stmt.parse_strip {text : String} {p : Stmt} (h : parse text = .ok p) :
    parse (strip text) = .ok p := by
  obtain ⟨ts, hl, hs⟩ := parse_eq_ok_iff_laid.mp h
  exact parse_eq_ok_iff_laid.mpr ⟨ts, hl.stripped, hs⟩

/-! ### The first token of a program -/

/-- A statement other than a chain begins with a keyword, or with a name that is assigned to. -/
theorem Grammar.Simple.exists_head {ts : List Token} {s : Stmt} (h : Simple ts s) :
    (∃ k rest, ts = .keyword k :: rest) ∨ ∃ name rest, ts = .var name :: .assign :: rest := by
  cases h with
  | skip => exact Or.inl ⟨_, _, rfl⟩
  | assign name => exact Or.inr ⟨name, _, rfl⟩
  | branch => exact Or.inl ⟨.ifWord, _, rfl⟩
  | loop => exact Or.inl ⟨.whileWord, _, rfl⟩

theorem Grammar.Statement.exists_head {ts : List Token} {s : Stmt} (h : Statement ts s) :
    (∃ k rest, ts = .keyword k :: rest) ∨ ∃ name rest, ts = .var name :: .assign :: rest := by
  cases h with
  | simple h => exact h.exists_head
  | seq h1 _ =>
    rcases h1.exists_head with ⟨k, rest, rfl⟩ | ⟨name, rest, rfl⟩
    · exact Or.inl ⟨k, _, rfl⟩
    · exact Or.inr ⟨name, _, rfl⟩

/-- A layout that does not begin with a blank begins with a spelling of its first token. -/
theorem Laid.exists_spelling {t : Token} {ts : List Token} {cs : List Char}
    (h : Laid (t :: ts) cs) (hhead : ∀ c, cs.head? = some c → ¬c ∈ blanks) :
    ∃ spelling rest, cs = spelling ++ rest ∧ t.Spells spelling ∧ t.EndsBefore rest ∧
      Laid ts rest := by
  cases h with
  | blank hc _ => exact absurd (Lexeme.mem_blanks_of_isBlank hc) (hhead _ rfl)
  | token ht hend h => exact ⟨_, _, rfl, ht, hend, h⟩

/-- No token is written like a command in small letters. -/
theorem Token.Spells.ne_command {t : Token} {cs : List Char} (h : t.Spells cs) :
    ∀ word ∈ ["help", "store", "reset"], cs ≠ word.toList := by
  cases h with
  | var _ hu =>
    rintro word hw rfl
    have hsmall : ∀ word ∈ ["help", "store", "reset"], word.toList.all Char.isUpper = false := by
      decide
    rw [← List.all_eq_true, hsmall word hw] at hu
    cases hu
  | number _ hd =>
    rintro word hw rfl
    have hletters : ∀ word ∈ ["help", "store", "reset"],
        word.toList.all Char.isDigit = false := by
      decide
    rw [← List.all_eq_true, hletters word hw] at hd
    cases hd
  | op op => cases op <;> decide
  | keyword k => cases k <;> decide
  | assign => decide
  | lparen => decide
  | rparen => decide
  | semi => decide

/-- The letters that a program begins with, and the text behind them. -/
structure FirstLetters (letters rest : List Char) : Prop where
  ne_nil : letters ≠ []
  isAlpha : ∀ c ∈ letters, c.isAlpha = true
  ends : ∀ c, rest.head? = some c → c.isAlpha = false
  ne_command : ∀ word ∈ ["help", "store", "reset"], letters ≠ word.toList
  goesOn : letters = "EOF".toList → rest ≠ []

/-- The first token of a program is written in letters. -/
theorem Grammar.Statement.exists_letters {ts : List Token} {s : Stmt} {cs : List Char}
    (h : Statement ts s) (hl : Laid ts cs) (hhead : ∀ c, cs.head? = some c → ¬c ∈ blanks) :
    ∃ letters rest, cs = letters ++ rest ∧ FirstLetters letters rest := by
  rcases h.exists_head with ⟨k, ts, rfl⟩ | ⟨name, ts, rfl⟩
  · obtain ⟨letters, rest, rfl, hspells, hend, -⟩ := hl.exists_spelling hhead
    refine ⟨letters, rest, rfl, hspells.ne_nil, ?_, hend, hspells.ne_command, ?_⟩
    · cases hspells
      exact List.all_eq_true.mp (by cases k <;> decide)
    · cases hspells
      cases k <;> exact fun h => absurd h (by decide)
  · obtain ⟨letters, rest, rfl, hspells, hend, hrest⟩ := hl.exists_spelling hhead
    refine ⟨letters, rest, rfl, hspells.ne_nil, ?_, hend, hspells.ne_command, ?_⟩
    · cases hspells with
      | var _ hu => exact fun c hc => isAlpha_of_isUpper (hu c hc)
    · -- a name is assigned to, so there is a token behind it
      exact fun _ => hrest.ne_nil

theorem isWordChar_of_isAlpha {c : Char} (h : c.isAlpha = true) : isWordChar c = true := by
  rw [isWordChar, Char.isAlphanum, h]
  rfl

/-- If the first word of a program consists of letters, they are the letters it begins with. -/
theorem FirstLetters.eq_word {letters rest word : List Char} (h : FirstLetters letters rest)
    (hw : (letters ++ rest).takeWhile isWordChar = word) (hword : word.all Char.isAlpha = true) :
    letters = word := by
  rw [List.takeWhile_append_of_pos fun c hc => isWordChar_of_isAlpha (h.isAlpha c hc)] at hw
  cases rest with
  | nil => simpa using hw
  | cons c rest =>
    rw [List.takeWhile_cons] at hw
    split at hw
    · -- the word would go on with a character that is no letter
      subst hw
      have hc := List.all_eq_true.mp hword c (by simp)
      rw [h.ends c rfl] at hc
      cases hc
    · simpa using hw

namespace TypedLine

/-! ### Commands -/

/-- A line has no command, or its first word is the command and the rest the argument. -/
theorem split_cases (line : String) :
    split line = ⟨none, none, line⟩ ∨ ∃ word rest,
      split line = ⟨some word, some (strip (String.ofList rest)), line⟩ ∧
        line.toList = word.toList ++ rest ∧ line.toList.takeWhile isWordChar = word.toList ∧
        (isCapital word = true → strip (String.ofList rest) = "") := by
  unfold split
  dsimp only
  split
  · exact Or.inl rfl
  · next hcond =>
    refine Or.inr ⟨_, _, rfl, ?_, String.toList_ofList.symm, fun hcap => ?_⟩
    · rw [String.toList_ofList, List.takeWhile_append_dropWhile]
    · rw [hcap] at hcond
      simpa using hcond

theorem split_help (rest : List Char) :
    ∃ topic, split ("help " ++ String.ofList rest) =
      ⟨some "help", some topic, "help " ++ String.ofList rest⟩ := by
  have hword : ("help " ++ String.ofList rest).toList.takeWhile isWordChar = "help".toList := by
    rw [String.toList_append]
    rfl
  unfold split
  dsimp only
  rw [hword, String.ofList_toList]
  exact ⟨_, if_neg fun h => absurd (Bool.and_eq_true_iff.mp h).1 (by decide)⟩

theorem ofString_cases (text : String) :
    (strip text = "" ∧ ofString text = ⟨none, none, ""⟩) ∨
    (strip text ≠ "" ∧ (strip text).toList.head? = some '?' ∧
      ∃ topic line, line ≠ "" ∧ ofString text = ⟨some "help", some topic, line⟩) ∨
    (strip text ≠ "" ∧ ofString text = ⟨none, none, strip text⟩) ∨
    (strip text ≠ "" ∧ ∃ word argument, ofString text = ⟨some word, some argument, strip text⟩ ∧
      (strip text).toList.takeWhile isWordChar = word.toList ∧
      (isCapital word = true → strip text = word)) := by
  have hne : ∀ {c : Char} {cs : List Char}, (strip text).toList = c :: cs → strip text ≠ "" := by
    intro c cs h he
    rw [he] at h
    cases h
  unfold ofString
  dsimp only
  split
  · next h =>
    have he : strip text = "" := String.toList_injective h
    exact Or.inl ⟨he, by rw [he]⟩
  · next rest h =>
    obtain ⟨topic, htopic⟩ := split_help rest
    refine Or.inr (Or.inl ⟨hne h, by rw [h]; rfl, topic, _, fun he => ?_, htopic⟩)
    have hlist := congrArg String.toList he
    rw [String.toList_append] at hlist
    cases hlist
  · next h => exact Or.inr (Or.inr (Or.inl ⟨hne h, rfl⟩))
  · next hnil _ _ =>
    have hne : strip text ≠ "" := fun he => hnil (by rw [he]; rfl)
    rcases split_cases (strip text) with h | ⟨word, rest, h, hline, hword, hcap⟩
    · exact Or.inr (Or.inr (Or.inl ⟨hne, h⟩))
    · refine Or.inr (Or.inr (Or.inr ⟨hne, word, _, h, hword, fun hc => ?_⟩))
      rw [eq_nil_of_strip hline (hcap hc), List.append_nil] at hline
      exact String.toList_injective hline

theorem request_of_none {line : String} (h : line ≠ "") :
    (TypedLine.mk none none line).request = .program line := if_neg h

theorem request_of_word {word argument line : String} (h : line ≠ "") :
    (TypedLine.mk (some word) (some argument) line).request =
      if word = "help" then .help argument else if word = "store" then .showStore
      else if word = "reset" then .reset else if word = "EOF" then .leave
      else .program line := by
  unfold request
  rw [if_neg h]
  split <;> simp_all

/-! ### Requests -/

/-- A line that is not blank asks for what its command says, or else is a program. -/
theorem request_table (text : String) :
    ((ofString text).request = .nothing ↔ strip text = "") ∧
    ((∃ topic, (ofString text).request = .help topic) ↔ (ofString text).command = some "help") ∧
    ((ofString text).request = .showStore ↔ (ofString text).command = some "store") ∧
    ((ofString text).request = .reset ↔ (ofString text).command = some "reset") ∧
    ((ofString text).request = .leave ↔ (ofString text).command = some "EOF") ∧
    ∀ t, (ofString text).request = .program t → t = strip text := by
  rcases ofString_cases text with ⟨hs, h⟩ | ⟨hs, -, topic, line, hl, h⟩ | ⟨hs, h⟩ |
    ⟨hs, word, argument, h, -⟩
  · have hr : (TypedLine.mk none none "").request = .nothing := rfl
    simp [h, hr, hs]
  · have hr := @request_of_word "help" topic line hl
    simp [h, hr, hs]
  · simp [h, request_of_none hs, hs]
  · rw [h, request_of_word hs]
    by_cases hhelp : word = "help"
    · simp [hhelp, hs]
    by_cases hstore : word = "store"
    · simp [hstore, hs]
    by_cases hreset : word = "reset"
    · simp [hreset, hs]
    by_cases hleave : word = "EOF"
    · simp [hleave, hs]
    simp [hhelp, hstore, hreset, hleave, hs]

theorem request_eq_nothing_iff {text : String} :
    (ofString text).request = .nothing ↔ strip text = "" := (request_table text).1

theorem exists_request_eq_help_iff {text : String} :
    (∃ topic, (ofString text).request = .help topic) ↔ (ofString text).command = some "help" :=
  (request_table text).2.1

theorem request_eq_showStore_iff {text : String} :
    (ofString text).request = .showStore ↔ (ofString text).command = some "store" :=
  (request_table text).2.2.1

theorem request_eq_reset_iff {text : String} :
    (ofString text).request = .reset ↔ (ofString text).command = some "reset" :=
  (request_table text).2.2.2.1

theorem command_ne_reset {text : String} {r : Request} (h : (ofString text).request = r)
    (hr : r ≠ .reset) : (ofString text).command ≠ some "reset" := by
  rw [Ne, ← request_eq_reset_iff, h]
  exact hr

/-- Only `EOF` by itself ends a session. -/
theorem request_eq_leave_iff {text : String} :
    (ofString text).request = .leave ↔ strip text = "EOF" := by
  obtain ⟨_, _, _, _, hleave, _⟩ := request_table text
  rw [hleave]
  constructor
  · intro hc
    rcases ofString_cases text with ⟨-, h⟩ | ⟨-, -, _, _, -, h⟩ | ⟨-, h⟩ |
      ⟨-, word, _, h, -, hcap⟩
    all_goals rw [h] at hc
    · cases hc
    · exact absurd (Option.some.inj hc) (by decide)
    · cases hc
    · obtain rfl := Option.some.inj hc
      exact hcap (by decide)
  · intro hs
    rw [ofString, hs]
    rfl

theorem eq_strip_of_request {text t : String} (h : (ofString text).request = .program t) :
    t = strip text := (request_table text).2.2.2.2.2 t h

/-- A program does not stand on a blank line, nor on one that asks for help by a question mark. -/
theorem ofString_of_parse {text : String} {p : Stmt} (h : Stmt.parse (strip text) = .ok p) :
    strip text ≠ "" ∧ (ofString text = ⟨none, none, strip text⟩ ∨
      ∃ word argument, ofString text = ⟨some word, some argument, strip text⟩ ∧
        (strip text).toList.takeWhile isWordChar = word.toList ∧
        (isCapital word = true → strip text = word)) := by
  obtain ⟨ts, hl, hs⟩ := Stmt.parse_eq_ok_iff_laid.mp h
  obtain ⟨letters, rest, hline, hfirst⟩ := hs.exists_letters hl fun _ => head?_strip
  rcases ofString_cases text with ⟨hs, -⟩ | ⟨-, hq, -⟩ | ⟨hs, h⟩ | ⟨hs, hword⟩
  · rw [hs] at hline
    exact absurd (List.append_eq_nil_iff.mp hline.symm).1 hfirst.ne_nil
  · obtain ⟨c, letters, rfl⟩ := List.exists_cons_of_ne_nil hfirst.ne_nil
    rw [hline] at hq
    cases hq
    exact absurd (hfirst.isAlpha _ List.mem_cons_self) (by decide)
  · exact ⟨hs, Or.inl h⟩
  · exact ⟨hs, Or.inr hword⟩

/-- **A program is not taken for a command.** -/
theorem request_of_parse {text : String} {p : Stmt} (h : Stmt.parse (strip text) = .ok p) :
    (ofString text).request = .program (strip text) := by
  obtain ⟨ts, hl, hs⟩ := Stmt.parse_eq_ok_iff_laid.mp h
  obtain ⟨letters, rest, hline, hfirst⟩ := hs.exists_letters hl fun _ => head?_strip
  obtain ⟨hs, h | ⟨word, _, h, hword, hcap⟩⟩ := ofString_of_parse h
  · rw [h, request_of_none hs]
  · rw [hline] at hword
    have hcommand : ∀ command ∈ ["help", "store", "reset"], word ≠ command := by
      rintro command hc rfl
      have hletters : ∀ word ∈ ["help", "store", "reset"],
          word.toList.all Char.isAlpha = true := by
        decide
      exact hfirst.ne_command word hc (hfirst.eq_word hword (hletters word hc))
    have hleave : word ≠ "EOF" := by
      rintro rfl
      have hl := hfirst.eq_word hword (by decide)
      rw [hcap (by decide), hl] at hline
      exact hfirst.goesOn hl (List.append_cancel_left (hline.symm.trans (List.append_nil _).symm))
    rw [h, request_of_word hs, if_neg (hcommand "help" (by simp)),
      if_neg (hcommand "store" (by simp)), if_neg (hcommand "reset" (by simp)), if_neg hleave]

end TypedLine

end WhileLang
