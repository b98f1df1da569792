import WhileLang.Stmt

/-!
# Trees that can be written

A tree can hold a variable of any name and a literal of any sign; a text cannot.  A tree
is well-formed when its names are words in capitals and its integer literals are not
negative.  Reading yields only such trees, and re-associating a chain keeps them so
(`Stmt.wellFormed_rightNest`).
-/

namespace WhileLang

/-- Whether a name is a word in ASCII capitals. -/
def isName (name : String) : Bool := name != "" && name.toList.all Char.isUpper

def Value.isWritable : Value → Bool
  | .int n => decide (0 ≤ n)
  | .bool _ => true

def Expr.wellFormed : Expr → Bool
  | .var name => isName name
  | .lit value => value.isWritable
  | .bin _ left right => left.wellFormed && right.wellFormed

namespace Stmt

/-- Whether a program can spell the statement, apart from how its chains are nested. -/
def wellFormed : Stmt → Bool
  | .skip => true
  | .assign name expr => isName name && expr.wellFormed
  | .branch cond yes no => cond.wellFormed && yes.wellFormed && no.wellFormed
  | .loop cond body => cond.wellFormed && body.wellFormed
  | .seq first second => first.wellFormed && second.wellFormed

theorem wellFormed_append (s t : Stmt) :
    (rightNest.append s t).wellFormed = (s.wellFormed && t.wellFormed) := by
  induction s with
  | seq first second _ ih =>
    rw [rightNest.append, wellFormed, ih, wellFormed, Bool.and_assoc]
  | skip => rfl
  | assign => rfl
  | branch => rfl
  | loop => rfl

/-- Re-associating chains keeps a tree well-formed, and makes none so. -/
theorem wellFormed_rightNest (s : Stmt) : s.rightNest.wellFormed = s.wellFormed := by
  induction s with
  | skip => rfl
  | assign => rfl
  | branch cond yes no ihy ihn => rw [rightNest, wellFormed, ihy, ihn, wellFormed]
  | loop cond body ih => rw [rightNest, wellFormed, ih, wellFormed]
  | seq first second ih1 ih2 => rw [rightNest, wellFormed_append, ih1, ih2, wellFormed]

end Stmt

end WhileLang
