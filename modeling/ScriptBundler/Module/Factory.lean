import ScriptBundler.Tree.Names
import ScriptBundler.Module.Path
import ScriptBundler.Module.Links

/-!
# Module factories

A script becomes a function that builds its module.  Imports look names up in
the table of modules, exports write into the module's own table, and `require`
calls are pointed at the table of modules.
-/

namespace ScriptBundler

namespace Make

def ident (name : String) : Expr :=
  .ident .nowhere name

def dot (object : Expr) (name : String) : Expr :=
  .dot .nowhere object .nowhere name

def assign (target value : Expr) : Expr :=
  .assign .nowhere .assign target value

def quoted (text : String) : Expr :=
  .string .nowhere ("'" ++ text ++ "'")

def moduleEntry (id : String) : Expr :=
  dot (ident "modules") id

def exportTable : Expr :=
  dot (ident "module") "es6"

def exportEntry (name : String) : Expr :=
  dot exportTable name

def lookup (id name : String) : Expr :=
  .call .nowhere (ident "requireES6") [moduleEntry id, quoted name]

def declarator (span : Span) (name : String) (value : Expr) : Declarator :=
  ⟨span, .ident span name, some value⟩

/-- Expressions as one statement; no statement for no expression. -/
def sequence (span : Span) : List Expr → List Stmt
  | [] => []
  | [e] => [.expr span e]
  | items => [.expr span (.sequence .nowhere items)]

end Make

open Make

/-- The id of the module that a literal names in the file of a path. -/
def sourceId (path raw : String) : String :=
  ModulePath.id (ModulePath.resolve (unquote raw) path)

namespace ImportSpecifier

def isAll : ImportSpecifier → Bool
  | .all _ _ => true
  | _ => false

def declarator (id : String) : ImportSpecifier → Declarator
  | .default span name => Make.declarator span name (lookup id "default")
  | .all span name => Make.declarator span name (lookup id "*")
  | .named span imported name => Make.declarator span name (lookup id imported)

end ImportSpecifier

/-- An import as a declaration of the variables it binds, the one for the whole
module first. -/
def importedVariables (path : String) (span : Span) (source : String)
    (specifiers : List ImportSpecifier) : List Stmt :=
  let ordered :=
    specifiers.filter ImportSpecifier.isAll ++ specifiers.filter (fun s => !s.isAll)
  match ordered with
  | [] => []
  | ordered =>
      [.decl (.vars span .var (ordered.map (ImportSpecifier.declarator (sourceId path source))))]

def exportedValue (path : String) (source : Option String) (name : String) : Expr :=
  match source with
  | some raw => lookup (sourceId path raw) name
  | none => ident name

def exportedNames (path : String) (span : Span) (source : Option String)
    (specifiers : List ExportSpecifier) : List Stmt :=
  Make.sequence span
    (specifiers.map (fun s => assign (exportEntry s.exported) (exportedValue path source s.name)))

def exportedVariables (span : Span) (names : List String) : List Stmt :=
  Make.sequence span (names.map (fun name => assign (exportEntry name) (ident name)))

/-- Write a default export into the table.  A function or class with a name
stays a declaration. -/
def exportedDefault (span : Span) (value : Expr) : List Stmt :=
  let write (value : Expr) : Stmt := .expr span (assign (exportEntry "default") value)
  match value with
  | .function own f =>
      match f.name with
      | some name => [.decl (.function own f), write (ident name)]
      | none => [write value]
  | .class own (some name) parent members =>
      [.decl (.class own (some name) parent members), write (ident name)]
  | _ => [write value]

def exportedAll (path : String) (span : Span) (source : String) : List Stmt :=
  [.expr span (.call .nowhere (dot (ident "Object") "assign")
    [exportTable, lookup (sourceId path source) "*"])]

/-- Statements in a position that holds exactly one. -/
def oneStatement (span : Span) : List Stmt → Stmt
  | [] => .empty span
  | [s] => s
  | body => .block span body

/-- The arguments of a call, with the literal of a `require` call replaced by
the module it names. -/
def linkedArgs (path : String) (callee : Expr) (args converted : List Expr) : List Expr :=
  match requiredSource? callee args with
  | some raw => moduleEntry (sourceId path raw) :: converted.drop 1
  | none => converted

/-!
# Converting a script

Every part of a tree is visited.  Only imports, exports and the literals of
`require` calls change.
-/

mutual

def Expr.toFactory (path : String) : Expr → Expr
  | .null s => .null s
  | .bool s value => .bool s value
  | .number s raw => .number s raw
  | .string s raw => .string s raw
  | .regex s pattern flags => .regex s pattern flags
  | .template s raw => .template s raw
  | .ident s name => .ident s name
  | .this s => .this s
  | .super s => .super s
  | .array s elements => .array s (Expr.elementsToFactory path elements)
  | .object s properties => .object s (Property.listToFactory path properties)
  | .function s value => .function s (value.toFactory path)
  | .arrow s isAsync params body =>
      .arrow s isAsync (Param.listToFactory path params) (body.toFactory path)
  | .arrowBlock s isAsync params body =>
      .arrowBlock s isAsync (Param.listToFactory path params) (Stmt.listToFactory path body)
  | .class s name parent members =>
      .class s name (Expr.optionToFactory path parent) (ClassMember.listToFactory path members)
  | .unary s op arg => .unary s op (arg.toFactory path)
  | .binary s op left right => .binary s op (left.toFactory path) (right.toFactory path)
  | .assign s op target value => .assign s op (target.toFactory path) (value.toFactory path)
  | .assignPattern s target value =>
      .assignPattern s (target.toFactory path) (value.toFactory path)
  | .update s op leading arg => .update s op leading (arg.toFactory path)
  | .conditional s test yes no =>
      .conditional s (test.toFactory path) (yes.toFactory path) (no.toFactory path)
  | .sequence s items => .sequence s (Expr.listToFactory path items)
  | .paren s inner => .paren s (inner.toFactory path)
  | .dot s object s' name => .dot s (object.toFactory path) s' name
  | .index s object property => .index s (object.toFactory path) (property.toFactory path)
  | .call s callee args =>
      .call s (callee.toFactory path)
        (linkedArgs path callee args (Expr.listToFactory path args))
  | .new s callee args => .new s (callee.toFactory path) (Expr.listToFactory path args)
  | .newBare s callee => .newBare s (callee.toFactory path)
  | .tagged s tag quasi => .tagged s (tag.toFactory path) quasi
  | .spread s arg => .spread s (arg.toFactory path)
  | .yield s delegate arg => .yield s delegate (Expr.optionToFactory path arg)
  | .await s arg => .await s (arg.toFactory path)

def Expr.listToFactory (path : String) : List Expr → List Expr
  | [] => []
  | e :: rest => e.toFactory path :: Expr.listToFactory path rest

def Expr.optionToFactory (path : String) : Option Expr → Option Expr
  | none => none
  | some e => some (e.toFactory path)

def Expr.elementsToFactory (path : String) : List (Option Expr) → List (Option Expr)
  | [] => []
  | e :: rest => Expr.optionToFactory path e :: Expr.elementsToFactory path rest

def Property.listToFactory (path : String) : List Property → List Property
  | [] => []
  | p :: rest => p.toFactory path :: Property.listToFactory path rest

def Property.toFactory (path : String) : Property → Property
  | .pair key value => .pair (key.toFactory path) (value.toFactory path)
  | .shorthand name => .shorthand name
  | .method kind key value => .method kind (key.toFactory path) (value.toFactory path)
  | .spread value => .spread (value.toFactory path)

def PropertyKey.toFactory (path : String) : PropertyKey → PropertyKey
  | .ident name => .ident name
  | .string raw => .string raw
  | .number raw => .number raw
  | .computed key => .computed (key.toFactory path)

def Func.toFactory (path : String) : Func → Func
  | ⟨span, name, isAsync, isGenerator, params, body⟩ =>
      ⟨span, name, isAsync, isGenerator, Param.listToFactory path params,
        Stmt.listToFactory path body⟩

def Param.listToFactory (path : String) : List Param → List Param
  | [] => []
  | p :: rest => p.toFactory path :: Param.listToFactory path rest

def Param.toFactory (path : String) : Param → Param
  | .plain s binding default =>
      .plain s (binding.toFactory path) (Expr.optionToFactory path default)
  | .rest s binding => .rest s (binding.toFactory path)

def ClassMember.listToFactory (path : String) : List ClassMember → List ClassMember
  | [] => []
  | m :: rest => m.toFactory path :: ClassMember.listToFactory path rest

def ClassMember.toFactory (path : String) : ClassMember → ClassMember
  | .method s kind isStatic key value =>
      .method s kind isStatic (key.toFactory path) (value.toFactory path)
  | .field s isStatic key value =>
      .field s isStatic (key.toFactory path) (Expr.optionToFactory path value)

def Binding.toFactory (path : String) : Binding → Binding
  | .ident s name => .ident s name
  | .array s elements => .array s (ArrayElement.listToFactory path elements)
  | .object s properties => .object s (ObjectElement.listToFactory path properties)

def Binding.optionToFactory (path : String) : Option Binding → Option Binding
  | none => none
  | some binding => some (binding.toFactory path)

def ArrayElement.listToFactory (path : String) : List ArrayElement → List ArrayElement
  | [] => []
  | e :: rest => e.toFactory path :: ArrayElement.listToFactory path rest

def ArrayElement.toFactory (path : String) : ArrayElement → ArrayElement
  | .hole => .hole
  | .item binding default =>
      .item (binding.toFactory path) (Expr.optionToFactory path default)
  | .rest binding => .rest (binding.toFactory path)

def ObjectElement.listToFactory (path : String) : List ObjectElement → List ObjectElement
  | [] => []
  | e :: rest => e.toFactory path :: ObjectElement.listToFactory path rest

def ObjectElement.toFactory (path : String) : ObjectElement → ObjectElement
  | .shorthand s name default => .shorthand s name (Expr.optionToFactory path default)
  | .pair key value default =>
      .pair (key.toFactory path) (value.toFactory path) (Expr.optionToFactory path default)
  | .rest s name => .rest s name

def Declarator.listToFactory (path : String) : List Declarator → List Declarator
  | [] => []
  | d :: rest => d.toFactory path :: Declarator.listToFactory path rest

def Declarator.toFactory (path : String) : Declarator → Declarator
  | ⟨span, binding, init⟩ =>
      ⟨span, binding.toFactory path, Expr.optionToFactory path init⟩

def ForInit.toFactory (path : String) : ForInit → ForInit
  | .none => .none
  | .vars kind decls => .vars kind (Declarator.listToFactory path decls)
  | .expr value => .expr (value.toFactory path)
  | .pattern binding => .pattern (binding.toFactory path)

def SwitchCase.listToFactory (path : String) : List SwitchCase → List SwitchCase
  | [] => []
  | c :: rest => c.toFactory path :: SwitchCase.listToFactory path rest

def SwitchCase.toFactory (path : String) : SwitchCase → SwitchCase
  | ⟨span, test, body⟩ =>
      ⟨span, Expr.optionToFactory path test, Stmt.listToFactory path body⟩

def Declaration.toFactory (path : String) : Declaration → Declaration
  | .vars s kind decls => .vars s kind (Declarator.listToFactory path decls)
  | .function s value => .function s (value.toFactory path)
  | .class s name parent members =>
      .class s name (Expr.optionToFactory path parent) (ClassMember.listToFactory path members)

def Stmt.listToFactory (path : String) : List Stmt → List Stmt
  | [] => []
  | s :: rest => s.toFactory path ++ Stmt.listToFactory path rest

def Stmt.toFactory (path : String) : Stmt → List Stmt
  | .decl value => [.decl (value.toFactory path)]
  | .block s body => [.block s (Stmt.listToFactory path body)]
  | .ifThen s test yes =>
      [.ifThen s (test.toFactory path) (oneStatement yes.span (yes.toFactory path))]
  | .ifElse s test yes no =>
      [.ifElse s (test.toFactory path) (oneStatement yes.span (yes.toFactory path))
        (oneStatement no.span (no.toFactory path))]
  | .switch s subject cases =>
      [.switch s (subject.toFactory path) (SwitchCase.listToFactory path cases)]
  | .forLoop s init test update body =>
      [.forLoop s (init.toFactory path) (Expr.optionToFactory path test)
        (Expr.optionToFactory path update) (oneStatement body.span (body.toFactory path))]
  | .forIn s left right body =>
      [.forIn s (left.toFactory path) (right.toFactory path)
        (oneStatement body.span (body.toFactory path))]
  | .forOf s left right body =>
      [.forOf s (left.toFactory path) (right.toFactory path)
        (oneStatement body.span (body.toFactory path))]
  | .whileLoop s test body =>
      [.whileLoop s (test.toFactory path) (oneStatement body.span (body.toFactory path))]
  | .doWhile s body test =>
      [.doWhile s (oneStatement body.span (body.toFactory path)) (test.toFactory path)]
  | .breakTo s label => [.breakTo s label]
  | .continueTo s label => [.continueTo s label]
  | .ret s arg => [.ret s (Expr.optionToFactory path arg)]
  | .throw s arg => [.throw s (arg.toFactory path)]
  | .tryCatch s body catchSpan param handler =>
      [.tryCatch s (Stmt.listToFactory path body) catchSpan
        (Binding.optionToFactory path param) (Stmt.listToFactory path handler)]
  | .tryFinally s body finalizer =>
      [.tryFinally s (Stmt.listToFactory path body) (Stmt.listToFactory path finalizer)]
  | .tryCatchFinally s body catchSpan param handler finalizer =>
      [.tryCatchFinally s (Stmt.listToFactory path body) catchSpan
        (Binding.optionToFactory path param) (Stmt.listToFactory path handler)
        (Stmt.listToFactory path finalizer)]
  | .labeled s label body =>
      [.labeled s label (oneStatement body.span (body.toFactory path))]
  | .expr s value => [.expr s (value.toFactory path)]
  | .empty s => [.empty s]
  | .debugger s => [.debugger s]
  | .importFrom s source specifiers => importedVariables path s source specifiers
  | .exportNamed s source specifiers => exportedNames path s source specifiers
  | .exportDefault s value => exportedDefault s (value.toFactory path)
  | .exportDecl s decl =>
      .decl (decl.toFactory path) :: exportedVariables s decl.names
  | .exportAll s source => exportedAll path s source

end

/-!
# The factory

The statements of a script stand in a function, between the record that a module
starts with and the result.
-/

def moduleRecord (hasExports : Bool) : Expr :=
  .object .nowhere
    [.pair (.ident "exports") (.object .nowhere []),
     .pair (.ident "es6") (.object .nowhere []),
     .pair (.ident "hasES6Exports") (.bool .nowhere hasExports)]

/-- The function that builds a module from its statements, entered into the
table of factories. -/
def factory (path : String) (hasExports : Bool) (body : List Stmt) : Stmt :=
  let record : Stmt :=
    .decl (.vars .nowhere .var [Make.declarator .nowhere "module" (moduleRecord hasExports)])
  let result : Stmt := .ret .nowhere (some (ident "module"))
  let build : Func :=
    ⟨.nowhere, none, false, false, [], record :: body ++ [result]⟩
  .expr .nowhere
    (assign (dot (ident "moduleFns") (ModulePath.id path)) (.function .nowhere build))

namespace Program

def toFactory (path : String) (p : Program) : Program :=
  [factory path p.exports (Stmt.listToFactory path p)]

def imports (path : String) (p : Program) : List String :=
  p.sources.map (fun raw => ModulePath.resolve (unquote raw) path)

end Program
end ScriptBundler
