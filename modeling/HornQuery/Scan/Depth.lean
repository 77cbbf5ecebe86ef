import HornQuery.Fragment

/-!
# How deep a query nests

A store follows the expressions of a query into each other, and only so far. What it counts is the
height of the trees that expressions form, where a chain of conditions leans to the left, and the
conditions of a nested block are counted once more on top of what is around the block.
-/

namespace HornQuery

/-- The height of an expression. A column is named in two steps; a placeholder stands for a block that
looks up a constant by two equations. -/
def Expr.height : Expr → Nat
  | .int _ => 1
  | .column _ _ => 2
  | .param _ => 4

/-- How far the store goes on inside an expression: through the conditions of the block that a
placeholder stands for. -/
def Expr.depth : Expr → Nat
  | .param _ => 3
  | _ => 0

mutual

/-- The height of a condition. -/
def Condition.height : Condition → Nat
  | .eq left right => max left.height right.height + 1
  | .exists scan => scan.height + 1

/-- The height of a block, which is that of its conditions and never zero. -/
def Scan.height : Scan → Nat
  | ⟨_, conditions, _⟩ => max 1 (Condition.chainHeight 0 conditions)

/-- The height of a chain of conditions that goes on from one of height `h`; there is none before it
if `h` is zero. -/
def Condition.chainHeight (h : Nat) : List Condition → Nat
  | [] => h
  | c :: cs => Condition.chainHeight (if h = 0 then c.height else max h c.height + 1) cs

end

mutual

/-- How far the store goes on inside a condition. -/
def Condition.depth : Condition → Nat
  | .eq left right => max left.depth right.depth
  | .exists scan => scan.depth

/-- How far the store goes on inside a block: through its conditions, and then into the deepest of
them. -/
def Scan.depth : Scan → Nat
  | ⟨_, conditions, _⟩ => max 1 (Condition.chainHeight 0 conditions + Condition.depthOf conditions)

/-- How far the store goes on inside the deepest of conditions. -/
def Condition.depthOf : List Condition → Nat
  | [] => 0
  | c :: cs => max c.depth (Condition.depthOf cs)

end

/-- How far the store has to follow a query. The question whether there is a combination is an
expression of its own. -/
def Fragment.depth (f : Fragment) : Nat :=
  match f.shape with
  | .existence => f.scan.height + 1 + f.scan.depth
  | .rows _ => f.scan.depth

end HornQuery
