/-!
# Line breaks

A line of a file may end with a line feed, a carriage return, or the two in this order;
a file is read with each of them as one line feed.

Where a text is cut, its line breaks can be unified part by part, unless the cut goes through a
line break of two characters (`unifyNewlines_append`).  Runs of characters other than the two of
a line break are left as they are (`unifyNewlines_of_forall_ne`, `takeWhile_unifyNewlines`), and
no carriage return is left (`not_mem_unifyNewlines`).
-/

namespace WhileLang

/-- A text with every line break as a line feed. -/
def unifyNewlines : List Char → List Char
  | [] => []
  | '\r' :: '\n' :: cs => '\n' :: unifyNewlines cs
  | '\r' :: cs => '\n' :: unifyNewlines cs
  | c :: cs => c :: unifyNewlines cs

theorem unifyNewlines_return {cs : List Char} (h : cs.head? ≠ some '\n') :
    unifyNewlines ('\r' :: cs) = '\n' :: unifyNewlines cs := by
  cases cs with
  | nil => rfl
  | cons c cs =>
    rw [unifyNewlines]
    rintro ds he
    cases he
    exact h rfl

theorem unifyNewlines_cons {c : Char} (hc : c ≠ '\r') (cs : List Char) :
    unifyNewlines (c :: cs) = c :: unifyNewlines cs := by
  rw [unifyNewlines]
  · rintro ds rfl
    exact absurd rfl hc
  · rintro rfl
    exact absurd rfl hc

/-- The line breaks of two parts are those of the whole, unless one of them is in both parts. -/
theorem unifyNewlines_append {cs ds : List Char}
    (h : cs.getLast? ≠ some '\r' ∨ ds.head? ≠ some '\n') :
    unifyNewlines (cs ++ ds) = unifyNewlines cs ++ unifyNewlines ds := by
  -- what a part ends with is what is left of it ends with
  have htail : ∀ {c : Char} {cs : List Char},
      (c :: cs).getLast? ≠ some '\r' ∨ ds.head? ≠ some '\n' →
        cs.getLast? ≠ some '\r' ∨ ds.head? ≠ some '\n' := by
    intro c cs h
    refine h.imp_left fun hl hc => hl ?_
    rw [List.getLast?_cons, hc]
    rfl
  fun_induction unifyNewlines cs with
  | case1 => rfl
  | case2 cs ih =>
    show '\n' :: unifyNewlines (cs ++ ds) = _
    rw [ih (htail (htail h)), List.cons_append]
  | case3 cs hne ih =>
    have hhead : (cs ++ ds).head? ≠ some '\n' := by
      cases cs with
      | nil => exact h.resolve_left fun hl => hl rfl
      | cons c cs =>
        intro he
        cases he
        exact hne cs rfl
    rw [List.cons_append, unifyNewlines_return hhead, ih (htail h), List.cons_append]
  | case4 c cs _ hc ih =>
    rw [List.cons_append, unifyNewlines_cons hc, ih (htail h), List.cons_append]

theorem not_mem_unifyNewlines (cs : List Char) : '\r' ∉ unifyNewlines cs := by
  fun_induction unifyNewlines cs with
  | case1 => exact List.not_mem_nil
  | case2 cs ih => exact List.not_mem_cons_of_ne_of_not_mem (by decide) ih
  | case3 cs _ ih => exact List.not_mem_cons_of_ne_of_not_mem (by decide) ih
  | case4 c cs _ hc ih =>
    exact List.not_mem_cons_of_ne_of_not_mem (fun he => hc he.symm) ih

theorem unifyNewlines_of_forall_ne {cs : List Char} (h : ∀ c ∈ cs, c ≠ '\r') :
    unifyNewlines cs = cs := by
  induction cs with
  | nil => rfl
  | cons c cs ih =>
    obtain ⟨hc, hcs⟩ := List.forall_mem_cons.mp h
    rw [unifyNewlines_cons hc, ih hcs]

theorem takeWhile_unifyNewlines {p : Char → Bool} (hr : p '\r' = false) (hn : p '\n' = false)
    (cs : List Char) : (unifyNewlines cs).takeWhile p = cs.takeWhile p := by
  have hreturn : ∀ ds, ('\r' :: ds).takeWhile p = [] :=
    fun ds => List.takeWhile_cons_of_neg (Bool.eq_false_iff.mp hr)
  have hfeed : ∀ ds, ('\n' :: ds).takeWhile p = [] :=
    fun ds => List.takeWhile_cons_of_neg (Bool.eq_false_iff.mp hn)
  fun_induction unifyNewlines cs with
  | case1 => rfl
  | case2 cs _ => rw [hfeed, hreturn]
  | case3 cs _ _ => rw [hfeed, hreturn]
  | case4 c cs _ _ ih => rw [List.takeWhile_cons, List.takeWhile_cons, ih]

/-- The lines of a text, `current` being the beginning of the first one in reverse.  A line
feed ends a line, and so does the end of a text that does not follow one. -/
def linesFrom (current : List Char) : List Char → List String
  | [] => if current.isEmpty then [] else [String.ofList current.reverse]
  | c :: cs =>
    if c = '\n' then String.ofList current.reverse :: linesFrom [] cs
    else linesFrom (c :: current) cs

def textLines (text : String) : List String := linesFrom [] text.toList

end WhileLang
