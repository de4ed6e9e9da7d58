import ScriptBundler.Grammar.Pattern

/-!
# Functions and classes

Everything that has parameters and a body, and the words in front of the name
of a method.
-/

namespace ScriptBundler
namespace Grammar

open Grammar.Parser

def declaredName (required : Bool) : Parser (Option String) := do
  if ← isAt .identifier then return some (← identifier)
  else if required then unexpected
  else return none

def function (r : Rules) (isAsync nameRequired : Bool) : Parser Func := do
  let start ← here
  expectKeyword .kwFunction
  let isGenerator ← eatMark .star
  let name ← declaredName nameRequired
  let cx := Context.function isAsync isGenerator
  let params ← params r cx
  let body ← block r cx
  return ⟨← spanFrom start, name, isAsync, isGenerator, params, body⟩

/-- A function after the word `async`, which its span takes in. -/
def asyncFunction (r : Rules) (nameRequired : Bool) : Parser Func := do
  let start ← here
  let _ ← advance
  let value ← function r true nameRequired
  return { value with span := ← spanFrom start }

structure MethodStart where
  kind : MethodKind
  isAsync : Bool
  isGenerator : Bool

namespace MethodStart

def isPlain (m : MethodStart) : Bool :=
  decide (m.kind = .method) && !m.isAsync && !m.isGenerator

end MethodStart

/-- Marks that show that the word before them is itself a name. -/
def followsName : Token.Kind → Bool
  | .punct .lParen | .punct .colon | .punct .eq | .punct .comma
  | .punct .semicolon | .punct .rBrace => true
  | _ => false

def methodStart : Parser MethodStart := do
  if followsName (← peekSecondKind) then
    return ⟨.method, false, ← eatMark .star⟩
  else if ← eatWord "get" then
    return ⟨.get, false, false⟩
  else if ← eatWord "set" then
    return ⟨.set, false, false⟩
  else if ← eatKeyword .kwAsync then
    return ⟨.method, true, ← eatMark .star⟩
  else
    return ⟨.method, false, ← eatMark .star⟩

def methodBody (r : Rules) (start : Nat) (m : MethodStart) : Parser Func := do
  let cx := Context.function m.isAsync m.isGenerator
  let params ← params r cx
  let body ← block r cx
  return ⟨← spanFrom start, none, m.isAsync, m.isGenerator, params, body⟩

/-- Marks that show that the word `static` before them is itself a name. -/
def followsStaticName : Token.Kind → Bool
  | .punct .lParen | .punct .eq | .punct .semicolon | .punct .rBrace => true
  | _ => false

def classMember (r : Rules) (cx : Context) : Parser ClassMember := do
  let start ← here
  let atStatic ← atKeyword .kwStatic
  let isStatic := atStatic && !followsStaticName (← peekSecondKind)
  if isStatic then
    let _ ← advance
  let m ← methodStart
  let key ← propertyKey r cx
  if ← atMark .lParen then
    let value ← methodBody r start m
    return .method (← spanFrom start) m.kind isStatic key value
  else if m.isPlain then
    let value ← defaultValue r cx
    semicolon
    return .field (← spanFrom start) isStatic key value
  else
    unexpected

structure ClassParts where
  name : Option String
  parent : Option Expr
  members : List ClassMember

def classParts (r : Rules) (cx : Context) (nameRequired : Bool) : Parser ClassParts := do
  expectKeyword .kwClass
  let name ← declaredName nameRequired
  let parent ←
    if ← eatKeyword .kwExtends then some <$> r.operand cx else pure none
  expectMark .lBrace
  let members ← collect do
    if ← eatMark .rBrace then return none
    else if ← eatMark .semicolon then return some none
    else return some (some (← classMember r cx))
  return ⟨name, parent, members.filterMap id⟩

end Grammar
end ScriptBundler
