import ScriptBundler.Operator

/-!
# Syntax trees

The tree of a script.  Literals, names and specifiers keep the text they were
written with, so that printing a tree can give it back.  Every node that takes
up a range of the source carries its span.
-/

namespace ScriptBundler

inductive VarKind where
  | var | let_ | const
deriving DecidableEq, Repr

namespace VarKind

def text : VarKind → String
  | var => "var"
  | let_ => "let"
  | const => "const"

def ofKind? : Token.Kind → Option VarKind
  | .keyword .kwVar => some var
  | .keyword .kwLet => some let_
  | .keyword .kwConst => some const
  | _ => none

end VarKind

inductive MethodKind where
  | method | get | set
deriving DecidableEq, Repr

inductive ImportSpecifier where
  | default (span : Span) (name : String)
  | all (span : Span) (name : String)
  | named (span : Span) (imported name : String)
deriving DecidableEq, Repr

structure ExportSpecifier where
  span : Span
  name : String
  exported : String
deriving DecidableEq, Repr

mutual

inductive Expr where
  | null (span : Span)
  | bool (span : Span) (value : Bool)
  | number (span : Span) (raw : String)
  | string (span : Span) (raw : String)
  | regex (span : Span) (pattern flags : String)
  | template (span : Span) (raw : String)
  | ident (span : Span) (name : String)
  | this (span : Span)
  | super (span : Span)
  | array (span : Span) (elements : List (Option Expr))
  | object (span : Span) (properties : List Property)
  | function (span : Span) (value : Func)
  | arrow (span : Span) (isAsync : Bool) (params : List Param) (body : Expr)
  | arrowBlock (span : Span) (isAsync : Bool) (params : List Param) (body : List Stmt)
  | class (span : Span) (name : Option String) (parent : Option Expr) (members : List ClassMember)
  | unary (span : Span) (op : UnaryOp) (arg : Expr)
  | binary (span : Span) (op : BinaryOp) (left right : Expr)
  | assign (span : Span) (op : AssignOp) (target : Expr) (value : Expr)
  | assignPattern (span : Span) (target : Binding) (value : Expr)
  | update (span : Span) (op : UpdateOp) (leading : Bool) (arg : Expr)
  | conditional (span : Span) (test yes no : Expr)
  | sequence (span : Span) (items : List Expr)
  | paren (span : Span) (inner : Expr)
  | dot (span : Span) (object : Expr) (nameSpan : Span) (name : String)
  | index (span : Span) (object property : Expr)
  | call (span : Span) (callee : Expr) (args : List Expr)
  | new (span : Span) (callee : Expr) (args : List Expr)
  | newBare (span : Span) (callee : Expr)
  | tagged (span : Span) (tag : Expr) (quasi : String)
  | spread (span : Span) (arg : Expr)
  | yield (span : Span) (delegate : Bool) (arg : Option Expr)
  | await (span : Span) (arg : Expr)

inductive Property where
  | pair (key : PropertyKey) (value : Expr)
  | shorthand (name : String)
  | method (kind : MethodKind) (key : PropertyKey) (value : Func)
  | spread (value : Expr)

inductive PropertyKey where
  | ident (name : String)
  | string (raw : String)
  | number (raw : String)
  | computed (key : Expr)

/-- Anything with parameters and a body of statements. -/
structure Func where
  span : Span
  name : Option String
  isAsync : Bool
  isGenerator : Bool
  params : List Param
  body : List Stmt

inductive Param where
  | plain (span : Span) (binding : Binding) (default : Option Expr)
  | rest (span : Span) (binding : Binding)

inductive ClassMember where
  | method (span : Span) (kind : MethodKind) (isStatic : Bool) (key : PropertyKey) (value : Func)
  | field (span : Span) (isStatic : Bool) (key : PropertyKey) (value : Option Expr)

inductive Binding where
  | ident (span : Span) (name : String)
  | array (span : Span) (elements : List ArrayElement)
  | object (span : Span) (properties : List ObjectElement)

inductive ArrayElement where
  | hole
  | item (binding : Binding) (default : Option Expr)
  | rest (binding : Binding)

inductive ObjectElement where
  | shorthand (span : Span) (name : String) (default : Option Expr)
  | pair (key : PropertyKey) (value : Binding) (default : Option Expr)
  | rest (span : Span) (name : String)

structure Declarator where
  span : Span
  binding : Binding
  init : Option Expr

inductive ForInit where
  | none
  | vars (kind : VarKind) (decls : List Declarator)
  | expr (value : Expr)
  | pattern (binding : Binding)

structure SwitchCase where
  span : Span
  test : Option Expr
  body : List Stmt

/-- A statement that brings names into scope and can be exported. -/
inductive Declaration where
  | vars (span : Span) (kind : VarKind) (decls : List Declarator)
  | function (span : Span) (value : Func)
  | class (span : Span) (name : Option String) (parent : Option Expr) (members : List ClassMember)

inductive Stmt where
  | decl (value : Declaration)
  | block (span : Span) (body : List Stmt)
  | ifThen (span : Span) (test : Expr) (yes : Stmt)
  | ifElse (span : Span) (test : Expr) (yes no : Stmt)
  | switch (span : Span) (subject : Expr) (cases : List SwitchCase)
  | forLoop (span : Span) (init : ForInit) (test update : Option Expr) (body : Stmt)
  | forIn (span : Span) (left : ForInit) (right : Expr) (body : Stmt)
  | forOf (span : Span) (left : ForInit) (right : Expr) (body : Stmt)
  | whileLoop (span : Span) (test : Expr) (body : Stmt)
  | doWhile (span : Span) (body : Stmt) (test : Expr)
  | breakTo (span : Span) (label : Option String)
  | continueTo (span : Span) (label : Option String)
  | ret (span : Span) (arg : Option Expr)
  | throw (span : Span) (arg : Expr)
  | tryCatch (span : Span) (body : List Stmt)
      (catchSpan : Span) (param : Option Binding) (handler : List Stmt)
  | tryFinally (span : Span) (body finalizer : List Stmt)
  | tryCatchFinally (span : Span) (body : List Stmt)
      (catchSpan : Span) (param : Option Binding) (handler finalizer : List Stmt)
  | labeled (span : Span) (label : String) (body : Stmt)
  | expr (span : Span) (value : Expr)
  | empty (span : Span)
  | debugger (span : Span)
  | importFrom (span : Span) (source : String) (specifiers : List ImportSpecifier)
  | exportNamed (span : Span) (source : Option String) (specifiers : List ExportSpecifier)
  | exportDefault (span : Span) (value : Expr)
  | exportDecl (span : Span) (decl : Declaration)
  | exportAll (span : Span) (source : String)

end

abbrev Program := List Stmt

def Expr.span : Expr → Span
  | .null span | .bool span _ | .number span _ | .string span _ | .regex span _ _
  | .template span _ | .ident span _ | .this span | .super span | .array span _
  | .object span _ | .function span _ | .arrow span _ _ _ | .arrowBlock span _ _ _
  | .class span _ _ _ | .unary span _ _ | .binary span _ _ _ | .assign span _ _ _
  | .assignPattern span _ _ | .update span _ _ _ | .conditional span _ _ _
  | .sequence span _ | .paren span _ | .dot span _ _ _ | .index span _ _ | .call span _ _
  | .new span _ _ | .newBare span _ | .tagged span _ _ | .spread span _ | .yield span _ _
  | .await span _ => span

def Declaration.span : Declaration → Span
  | .vars span _ _ | .function span _ | .class span _ _ _ => span

def Stmt.span : Stmt → Span
  | .decl value => value.span
  | .block span _ | .ifThen span _ _ | .ifElse span _ _ _ | .switch span _ _
  | .forLoop span _ _ _ _ | .forIn span _ _ _ | .forOf span _ _ _ | .whileLoop span _ _
  | .doWhile span _ _ | .breakTo span _ | .continueTo span _ | .ret span _ | .throw span _
  | .tryCatch span _ _ _ _ | .tryFinally span _ _ | .tryCatchFinally span _ _ _ _ _
  | .labeled span _ _ | .expr span _ | .empty span | .debugger span | .importFrom span _ _
  | .exportNamed span _ _ | .exportDefault span _ | .exportDecl span _
  | .exportAll span _ => span

def Expr.isAssignable : Expr → Bool
  | .ident _ _ | .dot _ _ _ _ | .index _ _ _ => true
  | .paren _ inner => inner.isAssignable
  | _ => false

end ScriptBundler
