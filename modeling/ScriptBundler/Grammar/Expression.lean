import ScriptBundler.Grammar.Function
import ScriptBundler.Grammar.Precedence

/-!
# Expressions

From literals and brackets up to assignments.  Arrow functions and assignments
to patterns look like parenthesised expressions and literals at first; they are
tried before those.
-/

namespace ScriptBundler
namespace Grammar

open Grammar.Parser

def spreadOrAssignment (r : Rules) (cx : Context) : Parser Expr := do
  let start ← here
  if ← eatMark .spread then
    let arg ← r.assignment cx
    return .spread (← spanFrom start) arg
  else
    r.assignment cx

def arguments (r : Rules) (cx : Context) : Parser (List Expr) := do
  expectMark .lParen
  commaList .rParen none (spreadOrAssignment r cx.allowIn)

def arrayLiteral (r : Rules) (cx : Context) : Parser (List (Option Expr)) := do
  expectMark .lBracket
  commaList .rBracket (some none) (some <$> spreadOrAssignment r cx.allowIn)

def property (r : Rules) (cx : Context) : Parser Property := do
  let start ← here
  if ← eatMark .spread then
    return .spread (← r.assignment cx)
  else
    let mayBeShort ← isAt .identifier
    let m ← methodStart
    let key ← propertyKey r cx
    if !m.isPlain || (← atMark .lParen) then
      return .method m.kind key (← methodBody r start m)
    else if ← eatMark .colon then
      return .pair key (← r.assignment cx)
    else
      match key with
      | .ident name => if mayBeShort then return .shorthand name else unexpected
      | _ => unexpected

def objectLiteral (r : Rules) (cx : Context) : Parser (List Property) := do
  expectMark .lBrace
  commaList .rBrace none (property r cx.allowIn)

def primary (r : Rules) (cx : Context) : Parser Expr := do
  let t ← peek
  let start := t.span.start
  match t.kind with
  | .keyword .kwClass =>
      let parts ← classParts r cx false
      return .class (← spanFrom start) parts.name parts.parent parts.members
  | .punct .lBrace =>
      let properties ← objectLiteral r cx
      return .object (← spanFrom start) properties
  | .stringQuote =>
      let raw ← stringLiteral
      return .string (← spanFrom start) raw
  | .number =>
      let _ ← advance
      let next ← rawPeek
      if next.kind = .identifier ∨ next.kind = .number then unexpectedAt next
      return .number (← spanFrom start) t.text
  | .keyword .kwTrue =>
      let _ ← advance
      return .bool (← spanFrom start) true
  | .keyword .kwFalse =>
      let _ ← advance
      return .bool (← spanFrom start) false
  | .keyword .kwNull =>
      let _ ← advance
      return .null (← spanFrom start)
  | .templateQuote =>
      let raw ← template r cx
      return .template (← spanFrom start) raw
  | .punct .lParen =>
      let _ ← advance
      let inner ← expression r cx.allowIn
      expectMark .rParen
      return .paren (← spanFrom start) inner
  | .punct .slash | .punct .slashEq =>
      let (pattern, flags) ← regexLiteral
      return .regex (← spanFrom start) pattern flags
  | .punct .lBracket =>
      let elements ← arrayLiteral r cx
      return .array (← spanFrom start) elements
  | .identifier =>
      let _ ← advance
      return .ident (← spanFrom start) t.text
  | .keyword .kwFunction =>
      let value ← function r false false
      return .function (← spanFrom start) value
  | .keyword .kwAsync =>
      if (← peekSecondKind) = .keyword .kwFunction then
        let value ← asyncFunction r false
        return .function (← spanFrom start) value
      else
        let _ ← advance
        return .ident (← spanFrom start) t.text
  | .keyword .kwThis =>
      let _ ← advance
      return .this (← spanFrom start)
  | .keyword .kwSuper =>
      let _ ← advance
      return .super (← spanFrom start)
  | _ => unexpected

/-- One member access, call or template behind an operand that starts at an
offset; `none` if there is no more. -/
def tail? (r : Rules) (cx : Context) (calls : Bool) (start : Nat) (e : Expr) :
    Parser (Option Expr) := do
  match ← peekKind with
  | .punct .dot =>
      let _ ← advance
      let nameStart ← here
      let name ← anyName
      let nameSpan ← spanFrom nameStart
      return some (.dot (← spanFrom start) e nameSpan name)
  | .punct .lBracket =>
      let _ ← advance
      let property ← expression r cx.allowIn
      expectMark .rBracket
      return some (.index (← spanFrom start) e property)
  | .punct .lParen =>
      if calls then
        let args ← arguments r cx
        return some (.call (← spanFrom start) e args)
      else
        return none
  | .templateQuote =>
      let quasi ← template r cx
      return some (.tagged (← spanFrom start) e quasi)
  | _ => return none

def tailsLoop (r : Rules) (cx : Context) (calls : Bool) (start : Nat) (e : Expr) :
    Nat → Parser Expr
  | 0 => exhausted
  | n + 1 => do
      match ← tail? r cx calls start e with
      | none => return e
      | some e => tailsLoop r cx calls start e n

def tails (r : Rules) (cx : Context) (calls : Bool) (e : Expr) : Parser Expr :=
  bounded (tailsLoop r cx calls e.span.start e)

/-- `new` takes the first argument list itself, so that a second one calls the
object made. -/
def construct (r : Rules) (cx : Context) : Parser Expr := do
  let start ← here
  expectKeyword .kwNew
  let callee ← if ← atKeyword .kwNew then r.construct cx else primary r cx
  let callee ← tails r cx false callee
  if ← atMark .lParen then
    let args ← arguments r cx
    return .new (← spanFrom start) callee args
  else
    return .newBare (← spanFrom start) callee

def operand (r : Rules) (cx : Context) : Parser Expr := do
  let callee ← if ← atKeyword .kwNew then construct r cx else primary r cx
  tails r cx true callee

/-- An operand with an update operator behind it, if one stands on the same
line. -/
def updated (r : Rules) (cx : Context) : Parser Expr := do
  let start ← here
  let e ← operand r cx
  match UpdateOp.ofKind? (← peekKind) with
  | none => return e
  | some op =>
      if ← newlineBefore then return e
      let _ ← advance
      return .update (← spanFrom start) op false e

def unary (r : Rules) (cx : Context) : Parser Expr := do
  let start ← here
  let kind ← peekKind
  match UnaryOp.ofKind? kind with
  | some op =>
      let _ ← advance
      let arg ← r.unary cx
      return .unary (← spanFrom start) op arg
  | none =>
      match UpdateOp.ofKind? kind with
      | some op =>
          let _ ← advance
          let arg ← r.unary cx
          return .update (← spanFrom start) op true arg
      | none =>
          if kind = .keyword .kwAwait ∧ cx.inAsync then
            let _ ← advance
            let arg ← r.unary cx
            return .await (← spanFrom start) arg
          else
            updated r cx

def binaryOp? (cx : Context) (k : Token.Kind) : Option BinaryOp :=
  if k = .keyword .kwIn ∧ cx.noIn then none else BinaryOp.ofKind? k

def binary (r : Rules) (cx : Context) : Parser Expr := do
  let first ← unary r cx
  let rest ← collect do
    match binaryOp? cx (← peekKind) with
    | none => return none
    | some op =>
        let _ ← advance
        return some (op, ← unary r cx)
  return group first rest

def conditional (r : Rules) (cx : Context) : Parser Expr := do
  let start ← here
  let test ← binary r cx
  if ← eatMark .question then
    let yes ← r.assignment cx.allowIn
    expectMark .colon
    let no ← r.assignment cx
    return .conditional (← spanFrom start) test yes no
  else
    return test

def endsYield : Token.Kind → Bool
  | .punct .rParen | .punct .rBracket | .punct .rBrace | .punct .comma
  | .punct .semicolon | .punct .colon | .endOfInput => true
  | _ => false

def yieldExpr (r : Rules) (cx : Context) : Parser Expr := do
  let start ← here
  expectKeyword .kwYield
  let delegate ← if ← newlineBefore then pure false else eatMark .star
  let bare ← if delegate then pure false
    else if ← newlineBefore then pure true
    else pure (endsYield (← peekKind))
  let arg ← if bare then pure none else some <$> r.assignment cx
  return .yield (← spanFrom start) delegate arg

def arrowPossible : Parser Bool := do
  match ← peekKind with
  | .punct .lParen => return true
  | .identifier => return decide ((← peekSecondKind) = .punct .arrow)
  | .keyword .kwAsync =>
      let second ← peekSecondKind
      return decide (second = .punct .lParen) || decide (second = .identifier)
  | _ => return false

def arrowParams (r : Rules) (cx : Context) : Parser (List Param) := do
  if ← isAt .identifier then
    let start ← here
    let name ← identifier
    let span ← spanFrom start
    return [.plain span (.ident span name) none]
  else
    params r cx

def arrowFunction (r : Rules) (cx : Context) : Parser Expr := do
  let start ← here
  let isAsync ← eatKeyword .kwAsync
  let inner := Context.function isAsync false
  let params ← arrowParams r inner
  if ← newlineBefore then unexpected
  expectMark .arrow
  if ← atMark .lBrace then
    let body ← block r inner
    return .arrowBlock (← spanFrom start) isAsync params body
  else
    let body ← r.assignment { inner with noIn := cx.noIn }
    return .arrow (← spanFrom start) isAsync params body

def patternAssignment (r : Rules) (cx : Context) : Parser Expr := do
  let start ← here
  let target ← pattern r cx
  expectMark .eq
  let value ← r.assignment cx
  return .assignPattern (← spanFrom start) target value

def plainAssignment (r : Rules) (cx : Context) : Parser Expr := do
  let start ← here
  let target ← conditional r cx
  match AssignOp.ofKind? (← peekKind) with
  | none => return target
  | some op =>
      if !target.isAssignable then unexpected
      let _ ← advance
      let value ← r.assignment cx
      return .assign (← spanFrom start) op target value

def assignment (r : Rules) (cx : Context) : Parser Expr := do
  let kind ← peekKind
  if kind = .keyword .kwYield ∧ cx.inGenerator then
    yieldExpr r cx
  else
    let arrow ←
      if ← arrowPossible then speculate .arrow cx (arrowFunction r cx) else pure none
    match arrow with
    | some e => return e
    | none =>
        let assigned ←
          if kind = .punct .lBrace ∨ kind = .punct .lBracket then
            speculate .patternAssignment cx (patternAssignment r cx)
          else
            pure none
        match assigned with
        | some e => return e
        | none => plainAssignment r cx

end Grammar
end ScriptBundler
