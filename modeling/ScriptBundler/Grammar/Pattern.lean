import ScriptBundler.Grammar.Rules

/-!
# Patterns

Names to be bound, alone or inside array and object patterns, and the
parameter lists made of them.
-/

namespace ScriptBundler
namespace Grammar

open Grammar.Parser

def arrayElement (r : Rules) (cx : Context) : Parser ArrayElement := do
  if ← eatMark .spread then
    return .rest (← r.pattern cx)
  else
    let binding ← r.pattern cx
    return .item binding (← defaultValue r cx)

def objectElement (r : Rules) (cx : Context) : Parser ObjectElement := do
  if ← eatMark .spread then
    let start ← here
    let name ← identifier
    return .rest (← spanFrom start) name
  else
    let mayBeShort ← isAt .identifier
    let start ← here
    let key ← propertyKey r cx
    if ← eatMark .colon then
      let value ← r.pattern cx
      return .pair key value (← defaultValue r cx)
    else
      match key with
      | .ident name =>
          if mayBeShort then
            let span ← spanFrom start
            return .shorthand span name (← defaultValue r cx)
          else
            unexpected
      | _ => unexpected

def pattern (r : Rules) (cx : Context) : Parser Binding := do
  let start ← here
  match ← peekKind with
  | .identifier | .keyword .kwAsync =>
      let name ← variableName
      return .ident (← spanFrom start) name
  | .punct .lBracket =>
      expectMark .lBracket
      let elements ← commaList .rBracket (some .hole) (arrayElement r cx)
      return .array (← spanFrom start) elements
  | .punct .lBrace =>
      expectMark .lBrace
      let properties ← commaList .rBrace none (objectElement r cx)
      return .object (← spanFrom start) properties
  | _ => unexpected

def param (r : Rules) (cx : Context) : Parser Param := do
  let start ← here
  if ← eatMark .spread then
    let binding ← r.pattern cx
    return .rest (← spanFrom start) binding
  else
    let binding ← r.pattern cx
    let value ← defaultValue r cx
    return .plain (← spanFrom start) binding value

def params (r : Rules) (cx : Context) : Parser (List Param) := do
  expectMark .lParen
  commaList .rParen none (param r cx)

end Grammar
end ScriptBundler
