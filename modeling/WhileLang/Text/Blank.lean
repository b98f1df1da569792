/-!
# Blank characters

The characters that Unicode counts as white space, and the information separators, are
blank.  A line typed by a user is stripped of blanks at both ends before it is looked
at; inside a program only some of them separate tokens.

A text is what `strip` makes of it between two runs of blanks (`exists_strip`), and what
`strip` makes of it has no blank at either end (`head?_strip`, `getLast?_strip`).
-/

namespace WhileLang

/-- The characters that are stripped from the ends of a line. -/
def blanks : List Char :=
  ['\t', '\n', '\x0b', '\x0c', '\r', '\x1c', '\x1d', '\x1e', '\x1f', ' ', '\u0085', '\u00a0',
    '\u1680', '\u2000', '\u2001', '\u2002', '\u2003', '\u2004', '\u2005', '\u2006', '\u2007',
    '\u2008', '\u2009', '\u200a', '\u2028', '\u2029', '\u202f', '\u205f', '\u3000']

def dropBlanks (cs : List Char) : List Char := cs.dropWhile fun c => blanks.contains c

def strip (text : String) : String :=
  String.ofList (dropBlanks (dropBlanks text.toList).reverse).reverse

theorem exists_dropBlanks (cs : List Char) :
    ∃ run, cs = run ++ dropBlanks cs ∧ (∀ c ∈ run, c ∈ blanks) ∧
      ∀ c, (dropBlanks cs).head? = some c → ¬c ∈ blanks := by
  refine ⟨cs.takeWhile fun c => blanks.contains c, List.takeWhile_append_dropWhile.symm,
    fun c hc => ?_, fun c hc hb => ?_⟩
  · exact List.contains_iff_mem.mp (List.all_eq_true.mp List.all_takeWhile c hc)
  · have hstop := List.head?_dropWhile_not (fun c => blanks.contains c) cs
    rw [show cs.dropWhile _ = dropBlanks cs from rfl, hc] at hstop
    have hno : blanks.contains c = false := hstop
    rw [List.contains_iff_mem.mpr hb] at hno
    cases hno

/-- A text is what is left of it between blanks, and there are no blanks at its ends. -/
theorem exists_strip (text : String) :
    ∃ front back, text.toList = front ++ ((strip text).toList ++ back) ∧
      (∀ c ∈ front, c ∈ blanks) ∧ (∀ c ∈ back, c ∈ blanks) ∧
      (∀ c, (strip text).toList.head? = some c → ¬c ∈ blanks) ∧
      ∀ c, (strip text).toList.getLast? = some c → ¬c ∈ blanks := by
  obtain ⟨front, hfront, hf, hhead⟩ := exists_dropBlanks text.toList
  obtain ⟨back, hback, hb, hlast⟩ := exists_dropBlanks (dropBlanks text.toList).reverse
  have hstrip : (strip text).toList = (dropBlanks (dropBlanks text.toList).reverse).reverse :=
    String.toList_ofList
  have hmid : dropBlanks text.toList = (strip text).toList ++ back.reverse := by
    rw [hstrip, ← List.reverse_append, ← hback, List.reverse_reverse]
  refine ⟨front, back.reverse, by rw [← hmid]; exact hfront, hf,
    fun c hc => hb c (List.mem_reverse.mp hc), fun c hc => hhead c ?_, fun c hc => hlast c ?_⟩
  · rw [hmid, List.head?_append, hc]
    rfl
  · rw [hstrip, List.getLast?_reverse] at hc
    exact hc

theorem head?_strip {text : String} {c : Char} (h : (strip text).toList.head? = some c) :
    ¬c ∈ blanks := by
  obtain ⟨_, _, _, _, _, hhead, _⟩ := exists_strip text
  exact hhead c h

theorem getLast?_strip {text : String} {c : Char} (h : (strip text).toList.getLast? = some c) :
    ¬c ∈ blanks := by
  obtain ⟨_, _, _, _, _, _, hlast⟩ := exists_strip text
  exact hlast c h

theorem strip_eq_empty_iff {text : String} : strip text = "" ↔ ∀ c ∈ text.toList, c ∈ blanks := by
  obtain ⟨front, back, htext, hf, hb, hhead, _⟩ := exists_strip text
  rw [htext]
  constructor
  · intro h c hc
    rw [h] at hc
    rcases List.mem_append.mp hc with hc | hc
    · exact hf c hc
    · exact hb c hc
  · intro h
    cases hs : (strip text).toList with
    | nil => exact String.toList_injective hs
    | cons c cs =>
      rw [hs] at hhead h
      exact absurd (h c (by simp)) (hhead c rfl)

/-- Behind a part of a stripped text there is something else than blanks, or nothing. -/
theorem eq_nil_of_strip {text : String} {cs rest : List Char}
    (h : (strip text).toList = cs ++ rest) (hr : strip (String.ofList rest) = "") : rest = [] := by
  rw [strip_eq_empty_iff, String.toList_ofList] at hr
  by_cases hne : rest = []
  · exact hne
  · have hlast : (strip text).toList.getLast? = some (rest.getLast hne) := by
      rw [h, List.getLast?_append, List.getLast?_eq_some_getLast hne]
      rfl
    exact absurd (hr _ (List.getLast_mem hne)) (getLast?_strip hlast)

end WhileLang
