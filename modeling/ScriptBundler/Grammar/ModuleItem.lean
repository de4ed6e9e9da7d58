import ScriptBundler.Grammar.Expression

/-!
# Imports and exports

The items of a script that name other modules or offer something to them.
-/

namespace ScriptBundler
namespace Grammar

open Grammar.Parser

def importSpecifier : Parser ImportSpecifier := do
  let start ← here
  let imported ← anyName
  let name ← if ← eatWord "as" then variableName else pure imported
  return .named (← spanFrom start) imported name

def importList : Parser (List ImportSpecifier) := do
  let start ← here
  if ← eatMark .star then
    expectWord "as"
    let name ← variableName
    return [.all (← spanFrom start) name]
  else
    expectMark .lBrace
    commaList .rBrace none importSpecifier

def importClause : Parser (List ImportSpecifier) := do
  if namesVariable (← peekKind) then
    let start ← here
    let name ← variableName
    let first := ImportSpecifier.default (← spanFrom start) name
    if ← eatMark .comma then
      return first :: (← importList)
    else
      return [first]
  else
    importList

def importStatement : Parser Stmt := do
  let start ← here
  expectKeyword .kwImport
  let specifiers ← do
    if ← isAt .stringQuote then pure []
    else
      let specifiers ← importClause
      expectWord "from"
      pure specifiers
  let source ← expectString
  semicolon
  return .importFrom (← spanFrom start) source specifiers

def exportSpecifier : Parser ExportSpecifier := do
  let start ← here
  let name ← anyName
  let exported ← if ← eatWord "as" then anyName else pure name
  return ⟨← spanFrom start, name, exported⟩

/-- The value of a default export.  A function or class here is a declaration:
nothing may be applied to it and no semicolon ends it. -/
def exportedDefault (r : Rules) (cx : Context) : Parser Expr := do
  let start ← here
  match ← peekKind with
  | .keyword .kwFunction =>
      let value ← function r false false
      return .function (← spanFrom start) value
  | .keyword .kwClass =>
      let parts ← classParts r cx false
      return .class (← spanFrom start) parts.name parts.parent parts.members
  | kind =>
      if kind = .keyword .kwAsync ∧ (← peekSecondKind) = .keyword .kwFunction then
        let _ ← advance
        let value ← function r true false
        return .function (← spanFrom start) value
      else
        let value ← r.assignment cx
        semicolon
        return value

def exportStatement (r : Rules) (cx : Context) : Parser Stmt := do
  let start ← here
  expectKeyword .kwExport
  match ← peekKind with
  | .keyword .kwDefault =>
      let _ ← advance
      let value ← exportedDefault r cx
      return .exportDefault (← spanFrom start) value
  | .punct .star =>
      let _ ← advance
      expectWord "from"
      let source ← expectString
      semicolon
      return .exportAll (← spanFrom start) source
  | .punct .lBrace =>
      let _ ← advance
      let specifiers ← commaList .rBrace none exportSpecifier
      let source ← if ← eatWord "from" then some <$> expectString else pure none
      semicolon
      return .exportNamed (← spanFrom start) source specifiers
  | .keyword .kwVar | .keyword .kwLet | .keyword .kwConst
  | .keyword .kwFunction | .keyword .kwClass | .keyword .kwAsync =>
      match ← r.statement cx with
      | .decl value => return .exportDecl (← spanFrom start) value
      | _ => unexpectedAt (← rawPeek)
  | _ => unexpected

end Grammar
end ScriptBundler
