import ScriptBundler.Printer.Level

/-!
# Printing trees

A tree is printed without line breaks and with as few blanks as possible.
Literals are printed as they were written.
-/

namespace ScriptBundler

open Piece

namespace MethodKind

def pieces : MethodKind → List Piece
  | method => []
  | get => put "get "
  | set => put "set "

end MethodKind

def renamedPieces (name other : String) : List Piece :=
  if name = other then put name else put name ++ put " as " ++ put other

namespace ImportSpecifier

/-- A default or whole-module import; names in braces are printed together. -/
def leadPieces? : ImportSpecifier → Option (List Piece)
  | .default _ name => some (put name)
  | .all _ name => some (put "* as " ++ put name)
  | .named _ _ _ => none

def namedPieces? : ImportSpecifier → Option (List Piece)
  | .named _ imported name => some (renamedPieces imported name)
  | _ => none

def clausePieces (specifiers : List ImportSpecifier) : List Piece :=
  let named := specifiers.filterMap namedPieces?
  let braced := if named.isEmpty then [] else [braces (commas named)]
  commas (specifiers.filterMap leadPieces? ++ braced)

end ImportSpecifier

namespace ExportSpecifier

def pieces (s : ExportSpecifier) : List Piece :=
  renamedPieces s.name s.exported

end ExportSpecifier

def namePieces : Option String → List Piece
  | some name => put name
  | none => []

/-- The comma that a hole at the end of a list needs. -/
def holePieces (endsWithHole : Bool) : List Piece :=
  putIf endsWithHole ","

def ArrayElement.isHole : ArrayElement → Bool
  | .hole => true
  | _ => false

mutual

def Expr.pieces : Expr → List Piece
  | .null _ => put "null"
  | .bool _ value => put (if value then "true" else "false")
  | .number _ raw => put raw
  | .string _ raw => put raw
  | .regex _ pattern flags => put "/" ++ stick pattern ++ stick "/" ++ stick flags
  | .template _ raw => put raw
  | .ident _ name => put name
  | .this _ => put "this"
  | .super _ => put "super"
  | .array _ elements =>
      brackets (commas (Expr.elementPieces elements) ++
        holePieces (elements.getLast?.any Option.isNone))
  | .object _ properties => braces (commas (Property.listPieces properties))
  | .function _ value => value.pieces
  | .arrow _ isAsync params body =>
      putIf isAsync "async" ++ parens (commas (Param.listPieces params)) ++ put "=>" ++
        body.fit Level.assignment body.pieces
  | .arrowBlock _ isAsync params body =>
      putIf isAsync "async" ++ parens (commas (Param.listPieces params)) ++ put "=>" ++
        braces (Stmt.listPieces body)
  | .class _ name parent members =>
      put "class" ++ namePieces name ++ Expr.parentPieces parent ++
        braces (ClassMember.listPieces members)
  | .unary _ op arg => put op.text ++ arg.fit Level.unary arg.pieces
  | .binary _ op left right =>
      left.fit op.leftLevel left.pieces ++ put op.text ++ right.fit op.rightLevel right.pieces
  | .assign _ op target value =>
      target.fit Level.updated target.pieces ++ put op.text ++
        value.fit Level.assignment value.pieces
  | .assignPattern _ target value =>
      target.pieces ++ put "=" ++ value.fit Level.assignment value.pieces
  | .update _ op leading arg =>
      if leading then put op.text ++ arg.fit Level.unary arg.pieces
      else arg.fit Level.updated arg.pieces ++ put op.text
  | .conditional _ test yes no =>
      test.fit (Level.conditional + 1) test.pieces ++ put "?" ++
        yes.fit Level.assignment yes.pieces ++ put ":" ++ no.fit Level.assignment no.pieces
  | .sequence _ items => commas (Expr.listPieces items)
  | .paren _ inner => parens inner.pieces
  | .dot _ object _ name =>
      object.fit Level.call object.pieces ++
        (if object.takesPoint then stick " " else []) ++ put "." ++ put name
  | .index _ object property =>
      object.fit Level.call object.pieces ++ brackets property.pieces
  | .call _ callee args =>
      callee.fit Level.call callee.pieces ++ parens (commas (Expr.listPieces args))
  | .new _ callee args =>
      put "new" ++ callee.fit Level.call callee.pieces ++ parens (commas (Expr.listPieces args))
  | .newBare _ callee => put "new" ++ callee.fit Level.call callee.pieces
  | .tagged _ tag quasi => tag.fit Level.call tag.pieces ++ put quasi
  | .spread _ arg => put "..." ++ arg.fit Level.assignment arg.pieces
  | .yield _ delegate arg =>
      put "yield" ++ putIf delegate "*" ++ Expr.optionPieces Level.assignment arg
  | .await _ arg => put "await" ++ arg.fit Level.unary arg.pieces

def Expr.listPieces : List Expr → List (List Piece)
  | [] => []
  | e :: rest => e.fit Level.assignment e.pieces :: Expr.listPieces rest

def Expr.elementPieces : List (Option Expr) → List (List Piece)
  | [] => []
  | e :: rest => Expr.optionPieces Level.assignment e :: Expr.elementPieces rest

def Expr.optionPieces (required : Nat) : Option Expr → List Piece
  | none => []
  | some e => e.fit required e.pieces

def Expr.valuePieces : Option Expr → List Piece
  | none => []
  | some e => put "=" ++ e.fit Level.assignment e.pieces

def Expr.parentPieces : Option Expr → List Piece
  | none => []
  | some e => put "extends" ++ e.fit Level.call e.pieces

def Property.listPieces : List Property → List (List Piece)
  | [] => []
  | p :: rest => p.pieces :: Property.listPieces rest

def Property.pieces : Property → List Piece
  | .pair key value => key.pieces ++ put ":" ++ value.fit Level.assignment value.pieces
  | .shorthand name => put name
  | .method kind key value => kind.pieces ++ value.methodPieces key.pieces
  | .spread value => put "..." ++ value.fit Level.assignment value.pieces

def PropertyKey.pieces : PropertyKey → List Piece
  | .ident name => put name
  | .string raw => put raw
  | .number raw => put raw
  | .computed key => brackets (key.fit Level.assignment key.pieces)

def Func.pieces : Func → List Piece
  | ⟨_, name, isAsync, isGenerator, params, body⟩ =>
      putIf isAsync "async" ++ put "function" ++ putIf isGenerator "*" ++
        (if isGenerator && name.isSome then stick " " else []) ++ namePieces name ++
        parens (commas (Param.listPieces params)) ++ braces (Stmt.listPieces body)

def Func.methodPieces (key : List Piece) : Func → List Piece
  | ⟨_, _, isAsync, isGenerator, params, body⟩ =>
      putIf isAsync "async " ++ putIf isGenerator "*" ++ key ++
        parens (commas (Param.listPieces params)) ++ braces (Stmt.listPieces body)

def Param.listPieces : List Param → List (List Piece)
  | [] => []
  | p :: rest => p.pieces :: Param.listPieces rest

def Param.pieces : Param → List Piece
  | .plain _ binding default => binding.pieces ++ Expr.valuePieces default
  | .rest _ binding => put "..." ++ binding.pieces

def ClassMember.listPieces : List ClassMember → List Piece
  | [] => []
  | m :: rest => m.pieces ++ ClassMember.listPieces rest

def ClassMember.pieces : ClassMember → List Piece
  | .method _ kind isStatic key value =>
      putIf isStatic "static " ++ kind.pieces ++ value.methodPieces key.pieces
  | .field _ isStatic key value =>
      putIf isStatic "static " ++ key.pieces ++ Expr.valuePieces value ++ stick ";"

def Binding.pieces : Binding → List Piece
  | .ident _ name => put name
  | .array _ elements =>
      brackets (commas (ArrayElement.listPieces elements) ++
        holePieces (elements.getLast?.any ArrayElement.isHole))
  | .object _ properties => braces (commas (ObjectElement.listPieces properties))

def ArrayElement.listPieces : List ArrayElement → List (List Piece)
  | [] => []
  | e :: rest => e.pieces :: ArrayElement.listPieces rest

def ArrayElement.pieces : ArrayElement → List Piece
  | .hole => []
  | .item binding default => binding.pieces ++ Expr.valuePieces default
  | .rest binding => put "..." ++ binding.pieces

def ObjectElement.listPieces : List ObjectElement → List (List Piece)
  | [] => []
  | e :: rest => e.pieces :: ObjectElement.listPieces rest

def ObjectElement.pieces : ObjectElement → List Piece
  | .shorthand _ name default => put name ++ Expr.valuePieces default
  | .pair key value default =>
      key.pieces ++ put ":" ++ value.pieces ++ Expr.valuePieces default
  | .rest _ name => put "..." ++ put name

def Declarator.listPieces : List Declarator → List (List Piece)
  | [] => []
  | d :: rest => d.pieces :: Declarator.listPieces rest

def Declarator.pieces : Declarator → List Piece
  | ⟨_, binding, init⟩ => binding.pieces ++ Expr.valuePieces init

def ForInit.pieces : ForInit → List Piece
  | .none => []
  | .vars kind decls => put kind.text ++ stick " " ++ commas (Declarator.listPieces decls)
  | .expr value => value.pieces
  | .pattern binding => binding.pieces

def SwitchCase.listPieces : List SwitchCase → List Piece
  | [] => []
  | c :: rest => c.pieces ++ SwitchCase.listPieces rest

def SwitchCase.pieces : SwitchCase → List Piece
  | ⟨_, test, body⟩ =>
      put (if test.isSome then "case" else "default") ++
        Expr.optionPieces Level.anything test ++ put ":" ++ Stmt.listPieces body

def Binding.handlerPieces : Option Binding → List Piece
  | none => []
  | some binding => parens binding.pieces

def Stmt.listPieces : List Stmt → List Piece
  | [] => []
  | s :: rest => s.pieces ++ Stmt.listPieces rest

def Declaration.pieces : Declaration → List Piece
  | .vars _ kind decls =>
      put kind.text ++ stick " " ++ commas (Declarator.listPieces decls) ++ stick ";"
  | .function _ value => value.pieces
  | .class _ name parent members =>
      put "class" ++ namePieces name ++ Expr.parentPieces parent ++
        braces (ClassMember.listPieces members)

def Stmt.pieces : Stmt → List Piece
  | .decl value => value.pieces
  | .block _ body => braces (Stmt.listPieces body)
  | .ifThen _ test yes => put "if(" ++ test.pieces ++ put ")" ++ yes.pieces
  | .ifElse _ test yes no =>
      put "if(" ++ test.pieces ++ put ")" ++ yes.pieces ++ put "else" ++ no.pieces
  | .switch _ subject cases =>
      put "switch(" ++ subject.pieces ++ put ")\x7b" ++ SwitchCase.listPieces cases ++
        put "\x7d"
  | .forLoop _ init test update body =>
      put "for(" ++ init.pieces ++ put ";" ++ Expr.optionPieces Level.anything test ++
        put ";" ++ Expr.optionPieces Level.anything update ++ put ")" ++ body.pieces
  | .forIn _ left right body =>
      put "for(" ++ left.pieces ++ put "in" ++ right.pieces ++ put ")" ++ body.pieces
  | .forOf _ left right body =>
      put "for(" ++ left.pieces ++ put "of" ++ right.fit Level.assignment right.pieces ++
        put ")" ++ body.pieces
  | .whileLoop _ test body => put "while(" ++ test.pieces ++ put ")" ++ body.pieces
  | .doWhile _ body test => put "do" ++ body.pieces ++ put "while(" ++ test.pieces ++ put ");"
  | .breakTo _ label => put "break" ++ namePieces label ++ stick ";"
  | .continueTo _ label => put "continue" ++ namePieces label ++ stick ";"
  | .ret _ arg => put "return" ++ Expr.optionPieces Level.anything arg ++ stick ";"
  | .throw _ arg => put "throw" ++ arg.pieces ++ stick ";"
  | .tryCatch _ body _ param handler =>
      put "try" ++ braces (Stmt.listPieces body) ++ put "catch" ++
        Binding.handlerPieces param ++ braces (Stmt.listPieces handler)
  | .tryFinally _ body finalizer =>
      put "try" ++ braces (Stmt.listPieces body) ++ put "finally" ++
        braces (Stmt.listPieces finalizer)
  | .tryCatchFinally _ body _ param handler finalizer =>
      put "try" ++ braces (Stmt.listPieces body) ++ put "catch" ++
        Binding.handlerPieces param ++ braces (Stmt.listPieces handler) ++ put "finally" ++
        braces (Stmt.listPieces finalizer)
  | .labeled _ label body => put label ++ put ":" ++ body.pieces
  | .expr _ value => value.pieces ++ stick ";"
  | .empty _ => stick ";"
  | .debugger _ => put "debugger" ++ stick ";"
  | .importFrom _ source specifiers =>
      put "import " ++
        (if specifiers.isEmpty then []
          else ImportSpecifier.clausePieces specifiers ++ put " from ") ++
        put source ++ stick ";"
  | .exportNamed _ source specifiers =>
      put "export\x7b" ++ commas (specifiers.map ExportSpecifier.pieces) ++ put "\x7d" ++
        (match source with
          | some source => put " from " ++ put source
          | none => []) ++
        stick ";"
  | .exportDefault _ value =>
      put "export default " ++ value.fit Level.assignment value.pieces ++
        (if value.declares then [] else stick ";")
  | .exportDecl _ decl => put "export " ++ decl.pieces
  | .exportAll _ source => put "export * from " ++ put source ++ stick ";"

end

namespace Program

def print (p : Program) : String :=
  Piece.render (Stmt.listPieces p)

end Program
end ScriptBundler
