import WhileLang.Stmt.Printer

/-!
# Outlines

An outline shows a tree on lines, one node or field to a line, each line two spaces
deeper than the node it belongs to.  A chain is shown flat: one `Sequence` with all
its top-level statements below it, however it is nested.

A line is kept as its depth and its text until it is printed, so `outline` at
another depth is the same outline with every depth shifted (`outline_add`).  A tree may
stand at a negative depth; its nodes are indented from depth zero on, and a field is
always two spaces deeper than its node.
-/

namespace WhileLang

inductive OutlineLine where
  /-- A node at its depth. -/
  | node (depth : Int) (label : String)
  /-- A field of the node at a depth. -/
  | field (depth : Int) (text : String)
  deriving DecidableEq

namespace OutlineLine

def indentation (depth : Int) : String := String.ofList (List.replicate (2 * depth.toNat) ' ')

def render : OutlineLine → String
  | .node depth label => indentation depth ++ label
  | .field depth text => indentation depth ++ "  " ++ text

/-- The line `k` levels deeper. -/
def shift (k : Int) : OutlineLine → OutlineLine
  | .node depth label => .node (depth + k) label
  | .field depth text => .field (depth + k) text

end OutlineLine

def Expr.outline (depth : Int) : Expr → List OutlineLine
  | .var name => [.node depth "Var", .field depth (quoted name)]
  | .lit value => [.node depth "Literal", .field depth value.debug]
  | .bin op left right =>
    .node depth "BinaryOp" :: .field depth op.debug ::
      (left.outline (depth + 1) ++ right.outline (depth + 1))

namespace Stmt

def outlineItems (depth : Int) : Stmt → List OutlineLine
  | .skip => [.node depth "Skip"]
  | .assign name expr =>
    .node depth "Assign" :: .field depth (quoted name) :: expr.outline (depth + 1)
  | .branch cond yes no =>
    .node depth "If" :: (cond.outline (depth + 1) ++
      (if yes.isSeq then .node (depth + 1) "Sequence" :: yes.outlineItems (depth + 2)
        else yes.outlineItems (depth + 1)) ++
      (if no.isSeq then .node (depth + 1) "Sequence" :: no.outlineItems (depth + 2)
        else no.outlineItems (depth + 1)))
  | .loop cond body =>
    .node depth "While" :: (cond.outline (depth + 1) ++
      (if body.isSeq then .node (depth + 1) "Sequence" :: body.outlineItems (depth + 2)
        else body.outlineItems (depth + 1)))
  | .seq first second => first.outlineItems depth ++ second.outlineItems depth

def outline (depth : Int) (s : Stmt) : List OutlineLine :=
  if s.isSeq then .node depth "Sequence" :: s.outlineItems (depth + 1) else s.outlineItems depth

end Stmt

def Expr.outlineText (e : Expr) (indent : Int) : List String :=
  (e.outline indent).map OutlineLine.render

def Stmt.outlineText (s : Stmt) (indent : Int) : List String :=
  (s.outline indent).map OutlineLine.render

theorem Expr.outline_add (e : Expr) (depth k : Int) :
    e.outline (depth + k) = (e.outline depth).map (OutlineLine.shift k) := by
  induction e generalizing depth with
  | var => simp [outline, OutlineLine.shift]
  | lit => simp [outline, OutlineLine.shift]
  | bin op left right ihl ihr =>
    simp [outline, OutlineLine.shift, Int.add_right_comm depth k 1, ihl, ihr]

namespace Stmt

theorem outlineItems_add (s : Stmt) (depth k : Int) :
    s.outlineItems (depth + k) = (s.outlineItems depth).map (OutlineLine.shift k) := by
  induction s generalizing depth with
  | skip => simp [outlineItems, OutlineLine.shift]
  | assign name expr =>
    simp [outlineItems, OutlineLine.shift, Int.add_right_comm depth k 1, Expr.outline_add]
  | branch cond yes no ihy ihn =>
    simp only [outlineItems, Int.add_right_comm depth k 1, Int.add_right_comm depth k 2,
      Expr.outline_add, ihy, ihn]
    cases yes.isSeq <;> cases no.isSeq <;> simp [OutlineLine.shift]
  | loop cond body ih =>
    simp only [outlineItems, Int.add_right_comm depth k 1, Int.add_right_comm depth k 2,
      Expr.outline_add, ih]
    cases body.isSeq <;> simp [OutlineLine.shift]
  | seq first second ih1 ih2 => simp [outlineItems, ih1, ih2]

/-- An outline that stands deeper is the same outline, indented further. -/
theorem outline_add (s : Stmt) (depth k : Int) :
    s.outline (depth + k) = (s.outline depth).map (OutlineLine.shift k) := by
  unfold outline
  rw [Int.add_right_comm depth k 1]
  cases s.isSeq <;> simp [outlineItems_add, OutlineLine.shift]

end Stmt

end WhileLang
