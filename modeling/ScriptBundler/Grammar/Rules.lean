import ScriptBundler.Tree
import ScriptBundler.Grammar.Literal

/-!
# Rules of the grammar

The grammar calls itself through a few nonterminals.  A production is an
ordinary parser that takes the rules for these nonterminals as a parameter and
uses them only after it has read a token.  Putting the productions in for the
rules once more than there are tokens therefore gives the whole grammar.
-/

namespace ScriptBundler
namespace Grammar

open Grammar.Parser

/-- The nonterminals through which the grammar calls itself. -/
inductive Goal where
  /-- An expression without commas outside of brackets. -/
  | assignment
  /-- An operand with the operators in front of and behind it. -/
  | unary
  /-- An operand with its member accesses and calls. -/
  | operand
  /-- An expression that starts with `new`. -/
  | construct
  | pattern
  | statement
deriving DecidableEq, Repr

abbrev Goal.Result : Goal → Type
  | .assignment | .unary | .operand | .construct => Expr
  | .pattern => Binding
  | .statement => Stmt

abbrev Rules := (goal : Goal) → Context → Parser goal.Result

namespace Rules

def assignment (r : Rules) (cx : Context) : Parser Expr :=
  r .assignment cx

def unary (r : Rules) (cx : Context) : Parser Expr :=
  r .unary cx

def operand (r : Rules) (cx : Context) : Parser Expr :=
  r .operand cx

def construct (r : Rules) (cx : Context) : Parser Expr :=
  r .construct cx

def pattern (r : Rules) (cx : Context) : Parser Binding :=
  r .pattern cx

def statement (r : Rules) (cx : Context) : Parser Stmt :=
  r .statement cx

end Rules

def commaSequence (item : Parser Expr) : Parser Expr := do
  let start ← here
  let first ← item
  if ← atMark .comma then
    let others ← collectWhile (eatMark .comma) item
    return .sequence (← spanFrom start) (first :: others)
  else
    return first

def expression (r : Rules) (cx : Context) : Parser Expr :=
  commaSequence (r.assignment cx)

def statementsUntil (stop : List Token.Kind) (statement : Parser Stmt) : Parser (List Stmt) :=
  collect do
    let k ← peekKind
    if k = .endOfInput ∨ k ∈ stop then return none else return some (← statement)

def block (r : Rules) (cx : Context) : Parser (List Stmt) := do
  expectMark .lBrace
  let body ← statementsUntil [.punct .rBrace] (r.statement cx)
  expectMark .rBrace
  return body

/-- A template, whose substitutions are read as expressions but kept as
text. -/
def template (r : Rules) (cx : Context) : Parser String :=
  templateLiteral do
    let _ ← expression r cx.allowIn
    expectMark .rBrace

def propertyKey (r : Rules) (cx : Context) : Parser PropertyKey := do
  let t ← peek
  if t.kind.isName then
    let _ ← advance
    return .ident t.text
  match t.kind with
  | .stringQuote => return .string (← stringLiteral)
  | .number =>
      let _ ← advance
      return .number t.text
  | .punct .lBracket =>
      let _ ← advance
      let key ← r.assignment cx.allowIn
      expectMark .rBracket
      return .computed key
  | _ => unexpected

def defaultValue (r : Rules) (cx : Context) : Parser (Option Expr) := do
  if ← eatMark .eq then return some (← r.assignment cx.allowIn) else return none

end Grammar
end ScriptBundler
