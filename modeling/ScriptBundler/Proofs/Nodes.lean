import ScriptBundler.Module.Links

/-!
# Nodes of a tree

Every statement and every expression of a tree, at any depth and in the order
in which they are written.  What a node links to is read off the node alone, so
that the links of a tree can be compared with those of its nodes.

The name behind a point is no expression of its own: it is kept as one only to
have a span.
-/

namespace ScriptBundler

inductive Node where
  | expr (value : Expr)
  | stmt (value : Stmt)

namespace Node

def isImport : Node → Bool
  | .stmt (.importFrom _ _ _) => true
  | _ => false

def isExport : Node → Bool
  | .stmt (.exportNamed _ _ _) | .stmt (.exportDefault _ _) | .stmt (.exportDecl _ _)
  | .stmt (.exportAll _ _) => true
  | _ => false

/-- The literal by which a node names another module: the source of an import
or of an export, or the first argument of a `require` call. -/
def specifier? : Node → Option String
  | .stmt (.importFrom _ source _) => some source
  | .stmt (.exportNamed _ source _) => source
  | .stmt (.exportAll _ source) => some source
  | .expr (.call _ (.ident _ name) (.string _ raw :: _)) =>
    if name = "require" then some raw else none
  | _ => none

def links (n : Node) : List Link :=
  (if n.isExport then [.exported] else []) ++ n.specifier?.toList.map .source

end Node

mutual

def Expr.nodes : Expr → List Node
  | e@(.null _) | e@(.bool _ _) | e@(.number _ _) | e@(.string _ _) | e@(.regex _ _ _)
  | e@(.template _ _) | e@(.ident _ _) | e@(.this _) | e@(.super _) => [.expr e]
  | e@(.array _ elements) => .expr e :: Expr.elementNodes elements
  | e@(.object _ properties) => .expr e :: Property.listNodes properties
  | e@(.function _ value) => .expr e :: value.nodes
  | e@(.arrow _ _ params body) => .expr e :: (Param.listNodes params ++ body.nodes)
  | e@(.arrowBlock _ _ params body) => .expr e :: (Param.listNodes params ++ Stmt.listNodes body)
  | e@(.class _ _ parent members) =>
    .expr e :: (Expr.optionNodes parent ++ ClassMember.listNodes members)
  | e@(.unary _ _ arg) | e@(.update _ _ _ arg) | e@(.paren _ arg) | e@(.spread _ arg)
  | e@(.await _ arg) => .expr e :: arg.nodes
  | e@(.binary _ _ left right) => .expr e :: (left.nodes ++ right.nodes)
  | e@(.assign _ _ target value) => .expr e :: (target.nodes ++ value.nodes)
  | e@(.assignPattern _ target value) => .expr e :: (target.nodes ++ value.nodes)
  | e@(.conditional _ test yes no) => .expr e :: (test.nodes ++ yes.nodes ++ no.nodes)
  | e@(.sequence _ items) => .expr e :: Expr.listNodes items
  | e@(.dot _ object _ _) => .expr e :: object.nodes
  | e@(.index _ object property) => .expr e :: (object.nodes ++ property.nodes)
  | e@(.call _ callee args) => .expr e :: (callee.nodes ++ Expr.listNodes args)
  | e@(.new _ callee args) => .expr e :: (callee.nodes ++ Expr.listNodes args)
  | e@(.newBare _ callee) => .expr e :: callee.nodes
  | e@(.tagged _ tag _) => .expr e :: tag.nodes
  | e@(.yield _ _ arg) => .expr e :: Expr.optionNodes arg

def Expr.listNodes : List Expr → List Node
  | [] => []
  | e :: rest => e.nodes ++ Expr.listNodes rest

def Expr.optionNodes : Option Expr → List Node
  | none => []
  | some e => e.nodes

def Expr.elementNodes : List (Option Expr) → List Node
  | [] => []
  | e :: rest => Expr.optionNodes e ++ Expr.elementNodes rest

def Property.listNodes : List Property → List Node
  | [] => []
  | p :: rest => p.nodes ++ Property.listNodes rest

def Property.nodes : Property → List Node
  | .pair key value => key.nodes ++ value.nodes
  | .shorthand _ => []
  | .method _ key value => key.nodes ++ value.nodes
  | .spread value => value.nodes

def PropertyKey.nodes : PropertyKey → List Node
  | .ident _ | .string _ | .number _ => []
  | .computed key => key.nodes

def Func.nodes : Func → List Node
  | ⟨_, _, _, _, params, body⟩ => Param.listNodes params ++ Stmt.listNodes body

def Param.listNodes : List Param → List Node
  | [] => []
  | p :: rest => p.nodes ++ Param.listNodes rest

def Param.nodes : Param → List Node
  | .plain _ binding default => binding.nodes ++ Expr.optionNodes default
  | .rest _ binding => binding.nodes

def ClassMember.listNodes : List ClassMember → List Node
  | [] => []
  | m :: rest => m.nodes ++ ClassMember.listNodes rest

def ClassMember.nodes : ClassMember → List Node
  | .method _ _ _ key value => key.nodes ++ value.nodes
  | .field _ _ key value => key.nodes ++ Expr.optionNodes value

def Binding.nodes : Binding → List Node
  | .ident _ _ => []
  | .array _ elements => ArrayElement.listNodes elements
  | .object _ properties => ObjectElement.listNodes properties

def Binding.optionNodes : Option Binding → List Node
  | none => []
  | some binding => binding.nodes

def ArrayElement.listNodes : List ArrayElement → List Node
  | [] => []
  | e :: rest => e.nodes ++ ArrayElement.listNodes rest

def ArrayElement.nodes : ArrayElement → List Node
  | .hole => []
  | .item binding default => binding.nodes ++ Expr.optionNodes default
  | .rest binding => binding.nodes

def ObjectElement.listNodes : List ObjectElement → List Node
  | [] => []
  | e :: rest => e.nodes ++ ObjectElement.listNodes rest

def ObjectElement.nodes : ObjectElement → List Node
  | .shorthand _ _ default => Expr.optionNodes default
  | .pair key value default => key.nodes ++ value.nodes ++ Expr.optionNodes default
  | .rest _ _ => []

def Declarator.listNodes : List Declarator → List Node
  | [] => []
  | d :: rest => d.nodes ++ Declarator.listNodes rest

def Declarator.nodes : Declarator → List Node
  | ⟨_, binding, init⟩ => binding.nodes ++ Expr.optionNodes init

def ForInit.nodes : ForInit → List Node
  | .none => []
  | .vars _ decls => Declarator.listNodes decls
  | .expr value => value.nodes
  | .pattern binding => binding.nodes

def SwitchCase.listNodes : List SwitchCase → List Node
  | [] => []
  | c :: rest => c.nodes ++ SwitchCase.listNodes rest

def SwitchCase.nodes : SwitchCase → List Node
  | ⟨_, test, body⟩ => Expr.optionNodes test ++ Stmt.listNodes body

def Declaration.nodes : Declaration → List Node
  | .vars _ _ decls => Declarator.listNodes decls
  | .function _ value => value.nodes
  | .class _ _ parent members => Expr.optionNodes parent ++ ClassMember.listNodes members

def Stmt.listNodes : List Stmt → List Node
  | [] => []
  | s :: rest => s.nodes ++ Stmt.listNodes rest

def Stmt.nodes : Stmt → List Node
  | s@(.decl value) => .stmt s :: value.nodes
  | s@(.block _ body) => .stmt s :: Stmt.listNodes body
  | s@(.ifThen _ test yes) => .stmt s :: (test.nodes ++ yes.nodes)
  | s@(.ifElse _ test yes no) => .stmt s :: (test.nodes ++ yes.nodes ++ no.nodes)
  | s@(.switch _ subject cases) => .stmt s :: (subject.nodes ++ SwitchCase.listNodes cases)
  | s@(.forLoop _ init test update body) =>
    .stmt s :: (init.nodes ++ Expr.optionNodes test ++ Expr.optionNodes update ++ body.nodes)
  | s@(.forIn _ left right body) | s@(.forOf _ left right body) =>
    .stmt s :: (left.nodes ++ right.nodes ++ body.nodes)
  | s@(.whileLoop _ test body) => .stmt s :: (test.nodes ++ body.nodes)
  | s@(.doWhile _ body test) => .stmt s :: (body.nodes ++ test.nodes)
  | s@(.breakTo _ _) | s@(.continueTo _ _) | s@(.empty _) | s@(.debugger _) => [.stmt s]
  | s@(.ret _ arg) => .stmt s :: Expr.optionNodes arg
  | s@(.throw _ arg) => .stmt s :: arg.nodes
  | s@(.tryCatch _ body _ param handler) =>
    .stmt s :: (Stmt.listNodes body ++ Binding.optionNodes param ++ Stmt.listNodes handler)
  | s@(.tryFinally _ body finalizer) =>
    .stmt s :: (Stmt.listNodes body ++ Stmt.listNodes finalizer)
  | s@(.tryCatchFinally _ body _ param handler finalizer) =>
    .stmt s :: (Stmt.listNodes body ++ Binding.optionNodes param ++ Stmt.listNodes handler ++
      Stmt.listNodes finalizer)
  | s@(.labeled _ _ body) => .stmt s :: body.nodes
  | s@(.expr _ value) => .stmt s :: value.nodes
  | s@(.importFrom _ _ _) | s@(.exportNamed _ _ _) | s@(.exportAll _ _) => [.stmt s]
  | s@(.exportDefault _ value) => .stmt s :: value.nodes
  | s@(.exportDecl _ decl) => .stmt s :: decl.nodes

end

def Program.nodes (p : Program) : List Node :=
  Stmt.listNodes p

end ScriptBundler
