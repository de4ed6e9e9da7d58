import ScriptBundler.Tree

/-!
# Links to other modules

A script is linked to other modules by its imports, its exports from another
module and its `require` calls, and it offers names to them by exporting.  The
links are listed in the order in which the parts of a tree are visited, which
is the order of the source but for the condition of a `do` loop.
-/

namespace ScriptBundler

/-- One use that a script makes of the module system. -/
inductive Link where
  /-- Another module is named by a literal. -/
  | source (raw : String)
  /-- Names are exported. -/
  | exported
deriving DecidableEq, Repr

namespace Link

def source? : Link → Option String
  | source raw => some raw
  | exported => none

end Link

def requiredSource? : Expr → List Expr → Option String
  | .ident _ name, .string _ raw :: _ => if name = "require" then some raw else none
  | _, _ => none

def callLinks (callee : Expr) (args : List Expr) : List Link :=
  (requiredSource? callee args).toList.map .source

mutual

def Expr.links : Expr → List Link
  | .null _ | .bool _ _ | .number _ _ | .string _ _ | .regex _ _ _ | .template _ _
  | .ident _ _ | .this _ | .super _ => []
  | .array _ elements => Expr.elementLinks elements
  | .object _ properties => Property.listLinks properties
  | .function _ value => value.links
  | .arrow _ _ params body => Param.listLinks params ++ body.links
  | .arrowBlock _ _ params body => Param.listLinks params ++ Stmt.listLinks body
  | .class _ _ parent members => Expr.optionLinks parent ++ ClassMember.listLinks members
  | .unary _ _ arg | .update _ _ _ arg | .paren _ arg | .spread _ arg | .await _ arg =>
      arg.links
  | .binary _ _ left right => left.links ++ right.links
  | .assign _ _ target value => target.links ++ value.links
  | .assignPattern _ target value => target.links ++ value.links
  | .conditional _ test yes no => test.links ++ yes.links ++ no.links
  | .sequence _ items => Expr.listLinks items
  | .dot _ object _ _ => object.links
  | .index _ object property => object.links ++ property.links
  | .call _ callee args => callLinks callee args ++ callee.links ++ Expr.listLinks args
  | .new _ callee args => callee.links ++ Expr.listLinks args
  | .newBare _ callee => callee.links
  | .tagged _ tag _ => tag.links
  | .yield _ _ arg => Expr.optionLinks arg

def Expr.listLinks : List Expr → List Link
  | [] => []
  | e :: rest => e.links ++ Expr.listLinks rest

def Expr.optionLinks : Option Expr → List Link
  | none => []
  | some e => e.links

def Expr.elementLinks : List (Option Expr) → List Link
  | [] => []
  | e :: rest => Expr.optionLinks e ++ Expr.elementLinks rest

def Property.listLinks : List Property → List Link
  | [] => []
  | p :: rest => p.links ++ Property.listLinks rest

def Property.links : Property → List Link
  | .pair key value => key.links ++ value.links
  | .shorthand _ => []
  | .method _ key value => key.links ++ value.links
  | .spread value => value.links

def PropertyKey.links : PropertyKey → List Link
  | .ident _ | .string _ | .number _ => []
  | .computed key => key.links

def Func.links : Func → List Link
  | ⟨_, _, _, _, params, body⟩ => Param.listLinks params ++ Stmt.listLinks body

def Param.listLinks : List Param → List Link
  | [] => []
  | p :: rest => p.links ++ Param.listLinks rest

def Param.links : Param → List Link
  | .plain _ binding default => binding.links ++ Expr.optionLinks default
  | .rest _ binding => binding.links

def ClassMember.listLinks : List ClassMember → List Link
  | [] => []
  | m :: rest => m.links ++ ClassMember.listLinks rest

def ClassMember.links : ClassMember → List Link
  | .method _ _ _ key value => key.links ++ value.links
  | .field _ _ key value => key.links ++ Expr.optionLinks value

def Binding.links : Binding → List Link
  | .ident _ _ => []
  | .array _ elements => ArrayElement.listLinks elements
  | .object _ properties => ObjectElement.listLinks properties

def Binding.optionLinks : Option Binding → List Link
  | none => []
  | some binding => binding.links

def ArrayElement.listLinks : List ArrayElement → List Link
  | [] => []
  | e :: rest => e.links ++ ArrayElement.listLinks rest

def ArrayElement.links : ArrayElement → List Link
  | .hole => []
  | .item binding default => binding.links ++ Expr.optionLinks default
  | .rest binding => binding.links

def ObjectElement.listLinks : List ObjectElement → List Link
  | [] => []
  | e :: rest => e.links ++ ObjectElement.listLinks rest

def ObjectElement.links : ObjectElement → List Link
  | .shorthand _ _ default => Expr.optionLinks default
  | .pair key value default => key.links ++ value.links ++ Expr.optionLinks default
  | .rest _ _ => []

def Declarator.listLinks : List Declarator → List Link
  | [] => []
  | d :: rest => d.links ++ Declarator.listLinks rest

def Declarator.links : Declarator → List Link
  | ⟨_, binding, init⟩ => binding.links ++ Expr.optionLinks init

def ForInit.links : ForInit → List Link
  | .none => []
  | .vars _ decls => Declarator.listLinks decls
  | .expr value => value.links
  | .pattern binding => binding.links

def SwitchCase.listLinks : List SwitchCase → List Link
  | [] => []
  | c :: rest => c.links ++ SwitchCase.listLinks rest

def SwitchCase.links : SwitchCase → List Link
  | ⟨_, test, body⟩ => Expr.optionLinks test ++ Stmt.listLinks body

def Declaration.links : Declaration → List Link
  | .vars _ _ decls => Declarator.listLinks decls
  | .function _ value => value.links
  | .class _ _ parent members => Expr.optionLinks parent ++ ClassMember.listLinks members

def Stmt.listLinks : List Stmt → List Link
  | [] => []
  | s :: rest => s.links ++ Stmt.listLinks rest

def Stmt.links : Stmt → List Link
  | .decl value => value.links
  | .block _ body => Stmt.listLinks body
  | .ifThen _ test yes => test.links ++ yes.links
  | .ifElse _ test yes no => test.links ++ yes.links ++ no.links
  | .switch _ subject cases => subject.links ++ SwitchCase.listLinks cases
  | .forLoop _ init test update body =>
      init.links ++ Expr.optionLinks test ++ Expr.optionLinks update ++ body.links
  | .forIn _ left right body => left.links ++ right.links ++ body.links
  | .forOf _ left right body => left.links ++ right.links ++ body.links
  | .whileLoop _ test body => test.links ++ body.links
  | .doWhile _ body test => test.links ++ body.links
  | .breakTo _ _ | .continueTo _ _ | .empty _ | .debugger _ => []
  | .ret _ arg => Expr.optionLinks arg
  | .throw _ arg => arg.links
  | .tryCatch _ body _ param handler =>
      Stmt.listLinks body ++ Binding.optionLinks param ++ Stmt.listLinks handler
  | .tryFinally _ body finalizer => Stmt.listLinks body ++ Stmt.listLinks finalizer
  | .tryCatchFinally _ body _ param handler finalizer =>
      Stmt.listLinks body ++ Binding.optionLinks param ++ Stmt.listLinks handler ++
        Stmt.listLinks finalizer
  | .labeled _ _ body => body.links
  | .expr _ value => value.links
  | .importFrom _ source _ => [.source source]
  | .exportNamed _ source _ => .exported :: source.toList.map .source
  | .exportDefault _ value => .exported :: value.links
  | .exportDecl _ decl => .exported :: decl.links
  | .exportAll _ source => [.exported, .source source]

end

namespace Program

def sources (p : Program) : List String :=
  (Stmt.listLinks p).filterMap Link.source?

def exports (p : Program) : Bool :=
  (Stmt.listLinks p).contains .exported

end Program
end ScriptBundler
