import ScriptBundler.Grammar.ModuleItem

/-!
# Statements

Statements are told by their first tokens.  Only a loop over a value looks like
another one at first, and is tried before it.
-/

namespace ScriptBundler
namespace Grammar

open Grammar.Parser

def condition (r : Rules) (cx : Context) : Parser Expr := do
  expectMark .lParen
  let test ← expression r cx.allowIn
  expectMark .rParen
  return test

def declarator (r : Rules) (cx : Context) : Parser Declarator := do
  let start ← here
  let binding ← r.pattern cx
  let init ← if ← eatMark .eq then some <$> r.assignment cx else pure none
  return ⟨← spanFrom start, binding, init⟩

def varKind : Parser VarKind := do
  match VarKind.ofKind? (← advance).kind with
  | some kind => return kind
  | none => unexpected

def declarators (r : Rules) (cx : Context) : Parser (List Declarator) := do
  let first ← declarator r cx
  let others ← collectWhile (eatMark .comma) (declarator r cx)
  return first :: others

def switchCase (r : Rules) (cx : Context) : Parser SwitchCase := do
  let start ← here
  let test ← do
    if ← eatKeyword .kwCase then some <$> expression r cx
    else
      expectKeyword .kwDefault
      pure none
  expectMark .colon
  let body ← statementsUntil
    [.keyword .kwCase, .keyword .kwDefault, .punct .rBrace] (r.statement cx)
  return ⟨← spanFrom start, test, body⟩

def switchStatement (r : Rules) (cx : Context) (start : Nat) : Parser Stmt := do
  expectKeyword .kwSwitch
  let subject ← condition r cx
  expectMark .lBrace
  let cases ← collect do
    if ← eatMark .rBrace then return none else return some (← switchCase r cx)
  return .switch (← spanFrom start) subject cases

structure Handler where
  span : Span
  param : Option Binding
  body : List Stmt

def handler (r : Rules) (cx : Context) : Parser Handler := do
  let start ← here
  expectKeyword .kwCatch
  let param ← do
    if ← eatMark .lParen then
      let param ← r.pattern cx
      expectMark .rParen
      pure (some param)
    else pure none
  let body ← block r cx
  return ⟨← spanFrom start, param, body⟩

def tryStatement (r : Rules) (cx : Context) (start : Nat) : Parser Stmt := do
  expectKeyword .kwTry
  let body ← block r cx
  let handler ← if ← atKeyword .kwCatch then some <$> handler r cx else pure none
  let finalizer ← if ← eatKeyword .kwFinally then some <$> block r cx else pure none
  match handler, finalizer with
  | some h, none => return .tryCatch (← spanFrom start) body h.span h.param h.body
  | none, some f => return .tryFinally (← spanFrom start) body f
  | some h, some f => return .tryCatchFinally (← spanFrom start) body h.span h.param h.body f
  | none, none => unexpected

def forEach (r : Rules) (cx : Context) (start : Nat) : Parser Stmt := do
  expectKeyword .kwFor
  expectMark .lParen
  let left ← do
    if (VarKind.ofKind? (← peekKind)).isSome then
      let kind ← varKind
      let declStart ← here
      let binding ← r.pattern cx
      pure (.vars kind [⟨← spanFrom declStart, binding, none⟩])
    else
      ForInit.pattern <$> r.pattern cx
  if ← eatKeyword .kwIn then
    let right ← expression r cx.allowIn
    expectMark .rParen
    let body ← r.statement cx
    return .forIn (← spanFrom start) left right body
  else
    expectWord "of"
    let right ← r.assignment cx.allowIn
    expectMark .rParen
    let body ← r.statement cx
    return .forOf (← spanFrom start) left right body

def optionalBefore (mark : Punctuator) (e : Parser Expr) : Parser (Option Expr) := do
  if ← atMark mark then return none else return some (← e)

def forCount (r : Rules) (cx : Context) (start : Nat) : Parser Stmt := do
  expectKeyword .kwFor
  expectMark .lParen
  let init ← do
    if ← atMark .semicolon then pure ForInit.none
    else if (VarKind.ofKind? (← peekKind)).isSome then
      let kind ← varKind
      ForInit.vars kind <$> declarators r cx.forbidIn
    else
      ForInit.expr <$> expression r cx.forbidIn
  expectMark .semicolon
  let test ← optionalBefore .semicolon (expression r cx.allowIn)
  expectMark .semicolon
  let update ← optionalBefore .rParen (expression r cx.allowIn)
  expectMark .rParen
  let body ← r.statement cx
  return .forLoop (← spanFrom start) init test update body

def forStatement (r : Rules) (cx : Context) (start : Nat) : Parser Stmt := do
  match ← attempt (forEach r cx start) with
  | some loop => return loop
  | none => forCount r cx start

/-- Whether a statement ends here: on a line break or before a mark. -/
def atStatementEnd : Parser Bool := do
  if ← newlineBefore then return true
  match ← peekKind with
  | .punct .semicolon | .punct .rBrace | .endOfInput => return true
  | _ => return false

def jumpLabel : Parser (Option String) := do
  if ← newlineBefore then return none
  else if ← isAt .identifier then return some (← identifier)
  else return none

def expressionStatement (r : Rules) (cx : Context) (start : Nat) : Parser Stmt := do
  let value ← commaSequence (assignment r cx)
  semicolon
  return .expr (← spanFrom start) value

def keywordStatement (r : Rules) (cx : Context) (start : Nat) : Keyword → Parser Stmt
  | .kwThrow => do
      let _ ← advance
      if ← newlineBefore then unexpected
      let arg ← expression r cx
      semicolon
      return .throw (← spanFrom start) arg
  | .kwSwitch => switchStatement r cx start
  | .kwTry => tryStatement r cx start
  | .kwVar | .kwLet | .kwConst => do
      let kind ← varKind
      let decls ← declarators r cx
      semicolon
      return .decl (.vars (← spanFrom start) kind decls)
  | .kwClass => do
      let parts ← classParts r cx true
      return .decl (.class (← spanFrom start) parts.name parts.parent parts.members)
  | .kwDo => do
      let _ ← advance
      let body ← r.statement cx
      expectKeyword .kwWhile
      let test ← condition r cx
      let _ ← eatMark .semicolon
      return .doWhile (← spanFrom start) body test
  | .kwWhile => do
      let _ ← advance
      let test ← condition r cx
      let body ← r.statement cx
      return .whileLoop (← spanFrom start) test body
  | .kwIf => do
      let _ ← advance
      let test ← condition r cx
      let yes ← r.statement cx
      if ← eatKeyword .kwElse then
        let no ← r.statement cx
        return .ifElse (← spanFrom start) test yes no
      else
        return .ifThen (← spanFrom start) test yes
  | .kwFor => forStatement r cx start
  | .kwExport => exportStatement r cx
  | .kwImport => importStatement
  | .kwFunction => do
      let value ← function r false true
      return .decl (.function (← spanFrom start) value)
  | .kwAsync => do
      if (← peekSecondKind) = .keyword .kwFunction then
        let value ← asyncFunction r true
        return .decl (.function (← spanFrom start) value)
      else
        expressionStatement r cx start
  | .kwReturn => do
      let _ ← advance
      let arg ← if ← atStatementEnd then pure none else some <$> expression r cx
      semicolon
      return .ret (← spanFrom start) arg
  | .kwBreak => do
      let _ ← advance
      let label ← jumpLabel
      semicolon
      return .breakTo (← spanFrom start) label
  | .kwContinue => do
      let _ ← advance
      let label ← jumpLabel
      semicolon
      return .continueTo (← spanFrom start) label
  | .kwDebugger => do
      let _ ← advance
      semicolon
      return .debugger (← spanFrom start)
  | .kwWith => unexpected
  | _ => expressionStatement r cx start

def statement (r : Rules) (cx : Context) : Parser Stmt := do
  let t ← peek
  let start := t.span.start
  match t.kind with
  | .identifier =>
      if (← peekSecondKind) = .punct .colon then
        let label ← identifier
        expectMark .colon
        let body ← r.statement cx
        return .labeled (← spanFrom start) label body
      else
        expressionStatement r cx start
  | .keyword word => keywordStatement r cx start word
  | .punct .lBrace =>
      let body ← block r cx
      return .block (← spanFrom start) body
  | .punct .semicolon =>
      let _ ← advance
      return .empty (← spanFrom start)
  | _ => expressionStatement r cx start

end Grammar
end ScriptBundler
