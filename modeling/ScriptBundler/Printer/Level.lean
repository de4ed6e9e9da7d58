import ScriptBundler.Tree
import ScriptBundler.Printer.Piece

/-!
# Levels of expressions

How tightly an expression holds together.  A position in a tree asks for a
level; an expression below that level is printed in parentheses there.
-/

namespace ScriptBundler

namespace Level

def anything : Nat := 0

def sequence : Nat := 1

/-- Assignments, and every expression that may stand between commas. -/
def assignment : Nat := 3

def conditional : Nat := 4

def unary : Nat := 16

def updated : Nat := 17

def call : Nat := 18

def closed : Nat := 255

end Level

namespace BinaryOp

def leftLevel (op : BinaryOp) : Nat :=
  if op.rightAssoc then op.level + 1 else op.level

def rightLevel (op : BinaryOp) : Nat :=
  if op.rightAssoc then op.level else op.level + 1

end BinaryOp

namespace Expr

def level : Expr → Nat
  | .sequence _ _ => Level.sequence
  | .assign _ _ _ _ | .assignPattern _ _ _ | .arrow _ _ _ _ | .arrowBlock _ _ _ _
  | .yield _ _ _ | .spread _ _ => Level.assignment
  | .conditional _ _ _ _ => Level.conditional
  | .binary _ op _ _ => op.level
  | .unary _ _ _ | .await _ _ => Level.unary
  | .update _ _ leading _ => if leading then Level.unary else Level.updated
  | _ => Level.closed

/-- The pieces of an expression at a position that asks for a level. -/
def fit (e : Expr) (required : Nat) (own : List Piece) : List Piece :=
  if e.level < required then Piece.parens own else own

/-- A number without a point, which would take a point behind it for its
own. -/
def takesPoint : Expr → Bool
  | .number _ raw => raw.toList.all Char.isDigit
  | _ => false

/-- Functions and classes are declarations when they are exported. -/
def declares : Expr → Bool
  | .function _ _ | .class _ _ _ _ => true
  | _ => false

end Expr
end ScriptBundler
