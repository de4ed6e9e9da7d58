import ScriptBundler.Token

/-!
# Operators of expressions

Each operator knows how it is written, which token writes it, and, for infix
operators, how tightly it binds.
-/

namespace ScriptBundler

inductive UnaryOp where
  | minus | plus | not | bitNot | typeof | void | delete
deriving DecidableEq, Repr

namespace UnaryOp

def text : UnaryOp → String
  | minus => "-"
  | plus => "+"
  | not => "!"
  | bitNot => "~"
  | typeof => "typeof"
  | void => "void"
  | delete => "delete"

def ofKind? : Token.Kind → Option UnaryOp
  | .punct .bang => some not
  | .punct .tilde => some bitNot
  | .punct .plus => some plus
  | .punct .minus => some minus
  | .keyword .kwTypeof => some typeof
  | .keyword .kwVoid => some void
  | .keyword .kwDelete => some delete
  | _ => none

end UnaryOp

inductive UpdateOp where
  | increment | decrement
deriving DecidableEq, Repr

namespace UpdateOp

def text : UpdateOp → String
  | increment => "++"
  | decrement => "--"

def ofKind? : Token.Kind → Option UpdateOp
  | .punct .plusPlus => some increment
  | .punct .minusMinus => some decrement
  | _ => none

end UpdateOp

inductive BinaryOp where
  | or | and | bitOr | bitXor | bitAnd
  | eq | notEq | strictEq | strictNotEq
  | lt | ltEq | gt | gtEq | inside | instanceof
  | shl | shr | uShr | add | sub | mul | div | mod | pow
deriving DecidableEq, Repr

namespace BinaryOp

def text : BinaryOp → String
  | or => "||" | and => "&&" | bitOr => "|" | bitXor => "^" | bitAnd => "&"
  | eq => "==" | notEq => "!=" | strictEq => "===" | strictNotEq => "!=="
  | lt => "<" | ltEq => "<=" | gt => ">" | gtEq => ">="
  | inside => "in" | instanceof => "instanceof"
  | shl => "<<" | shr => ">>" | uShr => ">>>"
  | add => "+" | sub => "-" | mul => "*" | div => "/" | mod => "%" | pow => "**"

def level : BinaryOp → Nat
  | or => 5
  | and => 6
  | bitOr => 7
  | bitXor => 8
  | bitAnd => 9
  | eq | notEq | strictEq | strictNotEq => 10
  | lt | ltEq | gt | gtEq | inside | instanceof => 11
  | shl | shr | uShr => 12
  | add | sub => 13
  | mul | div | mod => 14
  | pow => 15

/-- Only the power operator groups to the right. -/
def rightAssoc : BinaryOp → Bool
  | pow => true
  | _ => false

def ofKind? : Token.Kind → Option BinaryOp
  | .punct .plus => some add
  | .punct .minus => some sub
  | .punct .star => some mul
  | .punct .slash => some div
  | .punct .percent => some mod
  | .punct .starStar => some pow
  | .punct .eqEq => some eq
  | .punct .bangEq => some notEq
  | .punct .eqEqEq => some strictEq
  | .punct .bangEqEq => some strictNotEq
  | .punct .lt => some lt
  | .punct .ltEq => some ltEq
  | .punct .gt => some gt
  | .punct .gtEq => some gtEq
  | .punct .pipe => some bitOr
  | .punct .caret => some bitXor
  | .punct .amp => some bitAnd
  | .punct .ltLt => some shl
  | .punct .gtGt => some shr
  | .punct .gtGtGt => some uShr
  | .punct .ampAmp => some and
  | .punct .pipePipe => some or
  | .keyword .kwIn => some inside
  | .keyword .kwInstanceof => some instanceof
  | _ => none

end BinaryOp

inductive AssignOp where
  | assign | addAssign | subAssign | mulAssign | divAssign | modAssign | powAssign
  | shlAssign | shrAssign | uShrAssign | bitOrAssign | bitXorAssign | bitAndAssign
deriving DecidableEq, Repr

namespace AssignOp

def text : AssignOp → String
  | assign => "=" | addAssign => "+=" | subAssign => "-=" | mulAssign => "*="
  | divAssign => "/=" | modAssign => "%=" | powAssign => "**="
  | shlAssign => "<<=" | shrAssign => ">>=" | uShrAssign => ">>>="
  | bitOrAssign => "|=" | bitXorAssign => "^=" | bitAndAssign => "&="

def ofKind? : Token.Kind → Option AssignOp
  | .punct .eq => some assign
  | .punct .plusEq => some addAssign
  | .punct .minusEq => some subAssign
  | .punct .starEq => some mulAssign
  | .punct .slashEq => some divAssign
  | .punct .percentEq => some modAssign
  | .punct .starStarEq => some powAssign
  | .punct .ltLtEq => some shlAssign
  | .punct .gtGtEq => some shrAssign
  | .punct .gtGtGtEq => some uShrAssign
  | .punct .pipeEq => some bitOrAssign
  | .punct .caretEq => some bitXorAssign
  | .punct .ampEq => some bitAndAssign
  | _ => none

end AssignOp
end ScriptBundler
