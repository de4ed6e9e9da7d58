import ScriptBundler.Tree

/-!
# Grouping infix operators

A run of operands with infix operators between them is read from left to right
with a stack of operations that still wait for their right side.  An operation
is finished when the next operator does not bind more tightly.
-/

namespace ScriptBundler
namespace Grammar

/-- Left sides and their operators that wait for a right side, the last one
first. -/
abbrev Pending := List (Expr × BinaryOp)

def operation (left : Expr) (op : BinaryOp) (right : Expr) : Expr :=
  .binary (left.span.merge right.span) op left right

/-- Whether a waiting operator is finished by the next one. -/
def yieldsTo (waiting next : BinaryOp) : Bool :=
  decide (next.level < waiting.level) ||
    (decide (waiting.level = next.level) && !next.rightAssoc)

def settle (next : BinaryOp) : Pending → Expr → Pending × Expr
  | [], right => ([], right)
  | (left, op) :: waiting, right =>
      if yieldsTo op next then settle next waiting (operation left op right)
      else ((left, op) :: waiting, right)

def finish : Pending → Expr → Expr
  | [], right => right
  | (left, op) :: waiting, right => finish waiting (operation left op right)

def groupFrom : Pending → Expr → List (BinaryOp × Expr) → Expr
  | waiting, last, [] => finish waiting last
  | waiting, last, (op, operand) :: rest =>
      let (waiting, left) := settle op waiting last
      groupFrom ((left, op) :: waiting) operand rest

def group (first : Expr) (rest : List (BinaryOp × Expr)) : Expr :=
  groupFrom [] first rest

end Grammar
end ScriptBundler
