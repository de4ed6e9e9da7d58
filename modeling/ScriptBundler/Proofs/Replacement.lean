import Mathlib.Data.List.Forall2
import Mathlib.Data.Option.Defs
import ScriptBundler.Proofs.FactoryLinks

/-!
# What stands for imports and exports

Which tree may stand for which in a factory, said without the functions that
build it.  An import becomes one declaration that looks its names up in another
module, an export becomes its declaration with assignments to the module's own
table behind it, and the literal of a `require` call becomes an entry of the
table of modules.  Every other node stays, with its parts replaced.
-/

namespace ScriptBundler

/-! # The trees that are put in

The nodes that are made may have any span. -/

inductive Expr.IsEntry (id : String) : Expr → Prop
  | mk {s s₁ s₂ : Span} : IsEntry id (.dot s (.ident s₁ "modules") s₂ id)

inductive Expr.IsLookup (id name : String) : Expr → Prop
  | mk {s s₁ s₂ : Span} {entry : Expr} : entry.IsEntry id →
      IsLookup id name
        (.call s (.ident s₁ "requireES6") [entry, .string s₂ ("'" ++ name ++ "'")])

inductive Expr.IsTable : Expr → Prop
  | mk {s s₁ s₂ : Span} : IsTable (.dot s (.ident s₁ "module") s₂ "es6")

inductive Expr.IsVariable (name : String) : Expr → Prop
  | mk {s : Span} : IsVariable name (.ident s name)

/-- An entry of the table of exports: the name and what holds of the value. -/
structure ExportEntry where
  name : String
  holds : Expr → Prop

/-- An assignment of an entry to the table of exports. -/
inductive Expr.Writes : ExportEntry → Expr → Prop
  | mk {s s₁ s₂ : Span} {entry : ExportEntry} {table value : Expr} : table.IsTable →
      entry.holds value →
      Writes entry (.assign s .assign (.dot s₁ table s₂ entry.name) value)

/-- Entries written by at most one statement, in their order. -/
inductive Stmt.WriteAll : List ExportEntry → List Stmt → Prop
  | none : WriteAll [] []
  | one {s : Span} {entry : ExportEntry} {e : Expr} : e.Writes entry →
      WriteAll [entry] [.expr s e]
  | several {s s₁ : Span} {entries : List ExportEntry} {es : List Expr} :
      2 ≤ entries.length → List.Forall₂ (fun entry e => Expr.Writes entry e) entries es →
      WriteAll entries [.expr s (.sequence s₁ es)]

namespace ImportSpecifier

def bound : ImportSpecifier → String
  | .default _ name | .all _ name | .named _ _ name => name

def key : ImportSpecifier → String
  | .default _ _ => "default"
  | .all _ _ => "*"
  | .named _ imported _ => imported

def bindsModule : ImportSpecifier → Bool
  | .all _ _ => true
  | .default _ _ | .named _ _ _ => false

theorem isAll_eq_bindsModule : isAll = bindsModule := by
  funext specifier
  cases specifier <;> rfl

end ImportSpecifier

inductive Declarator.Imports (id : String) (specifier : ImportSpecifier) : Declarator → Prop
  | mk {s s₁ : Span} {value : Expr} : value.IsLookup id specifier.key →
      Imports id specifier ⟨s, .ident s₁ specifier.bound, some value⟩

mutual

/-- The names that a pattern binds, as they are written. -/
inductive Binding.Lists : Binding → List String → Prop
  | ident {s : Span} {name : String} : Binding.Lists (.ident s name) [name]
  | array {s : Span} {elements : List ArrayElement} {parts : List (List String)} :
      List.Forall₂ ArrayElement.Lists elements parts →
      Binding.Lists (.array s elements) parts.flatten
  | object {s : Span} {properties : List ObjectElement} {parts : List (List String)} :
      List.Forall₂ ObjectElement.Lists properties parts →
      Binding.Lists (.object s properties) parts.flatten

inductive ArrayElement.Lists : ArrayElement → List String → Prop
  | hole : ArrayElement.Lists .hole []
  | item {b : Binding} {default : Option Expr} {names : List String} : Binding.Lists b names →
      ArrayElement.Lists (.item b default) names
  | rest {b : Binding} {names : List String} : Binding.Lists b names →
      ArrayElement.Lists (.rest b) names

inductive ObjectElement.Lists : ObjectElement → List String → Prop
  | shorthand {s : Span} {name : String} {default : Option Expr} :
      ObjectElement.Lists (.shorthand s name default) [name]
  | pair {key : PropertyKey} {b : Binding} {default : Option Expr} {names : List String} :
      Binding.Lists b names → ObjectElement.Lists (.pair key b default) names
  | rest {s : Span} {name : String} : ObjectElement.Lists (.rest s name) [name]

end

inductive Declaration.Lists : Declaration → List String → Prop
  | vars {s : Span} {kind : VarKind} {decls : List Declarator} {parts : List (List String)} :
      List.Forall₂ (fun d names => d.binding.Lists names) decls parts →
      Lists (.vars s kind decls) parts.flatten
  | function {s : Span} {f : Func} : Lists (.function s f) f.name.toList
  | class {s : Span} {name : Option String} {parent : Option Expr} {members : List ClassMember} :
      Lists (.class s name parent members) name.toList

/-!
# One tree for another

There is one rule for each node.  Imports, exports and `require` calls have rules of
their own.
-/

def Expr.isAtom : Expr → Bool
  | .null _ | .bool _ _ | .number _ _ | .string _ _ | .regex _ _ _ | .template _ _ | .ident _ _
  | .this _ | .super _ => true
  | _ => false

/-- The statement in a position for exactly one. -/
inductive Stmt.Fills (s : Span) : List Stmt → Stmt → Prop
  | none : Fills s [] (.empty s)
  | one {stmt : Stmt} : Fills s [stmt] stmt
  | several {body : List Stmt} : 2 ≤ body.length → Fills s body (.block s body)

/-- The declaration that a default export with a name stays. -/
inductive Expr.Declares : Expr → Declaration → String → Prop
  | function {s : Span} {f : Func} {name : String} : f.name = some name →
      Declares (.function s f) (.function s f) name
  | class {s : Span} {name : String} {parent : Option Expr} {members : List ClassMember} :
      Declares (.class s (some name) parent members) (.class s (some name) parent members) name

section
variable (path : String)

mutual

/-- An expression stands for another one in the factory of a path. -/
inductive Expr.Becomes : Expr → Expr → Prop
  | atom {e : Expr} : e.isAtom = true → Expr.Becomes e e
  | array {s es es'} : List.Forall₂ (Option.Rel (Expr.Becomes)) es es' →
      Expr.Becomes (.array s es) (.array s es')
  | object {s ps ps'} : List.Forall₂ (Property.Becomes) ps ps' →
      Expr.Becomes (.object s ps) (.object s ps')
  | function {s f f'} : Func.Becomes f f' → Expr.Becomes (.function s f) (.function s f')
  | arrow {s isAsync ps ps' e e'} : List.Forall₂ (Param.Becomes) ps ps' → Expr.Becomes e e' →
      Expr.Becomes (.arrow s isAsync ps e) (.arrow s isAsync ps' e')
  | arrowBlock {s isAsync ps ps' body body'} : List.Forall₂ (Param.Becomes) ps ps' →
      Stmt.ListBecomes body body' →
      Expr.Becomes (.arrowBlock s isAsync ps body) (.arrowBlock s isAsync ps' body')
  | class {s name parent parent' ms ms'} : Option.Rel (Expr.Becomes) parent parent' →
      List.Forall₂ (ClassMember.Becomes) ms ms' →
      Expr.Becomes (.class s name parent ms) (.class s name parent' ms')
  | unary {s op e e'} : Expr.Becomes e e' → Expr.Becomes (.unary s op e) (.unary s op e')
  | binary {s op l l' r r'} : Expr.Becomes l l' → Expr.Becomes r r' →
      Expr.Becomes (.binary s op l r) (.binary s op l' r')
  | assign {s op t t' v v'} : Expr.Becomes t t' → Expr.Becomes v v' →
      Expr.Becomes (.assign s op t v) (.assign s op t' v')
  | assignPattern {s b b' v v'} : Binding.Becomes b b' → Expr.Becomes v v' →
      Expr.Becomes (.assignPattern s b v) (.assignPattern s b' v')
  | update {s op leading e e'} : Expr.Becomes e e' →
      Expr.Becomes (.update s op leading e) (.update s op leading e')
  | conditional {s e e' yes yes' no no'} : Expr.Becomes e e' → Expr.Becomes yes yes' →
      Expr.Becomes no no' → Expr.Becomes (.conditional s e yes no) (.conditional s e' yes' no')
  | sequence {s es es'} : List.Forall₂ (Expr.Becomes) es es' →
      Expr.Becomes (.sequence s es) (.sequence s es')
  | paren {s e e'} : Expr.Becomes e e' → Expr.Becomes (.paren s e) (.paren s e')
  | dot {s e e' s₁ name} : Expr.Becomes e e' →
      Expr.Becomes (.dot s e s₁ name) (.dot s e' s₁ name)
  | index {s e e' property property'} : Expr.Becomes e e' → Expr.Becomes property property' →
      Expr.Becomes (.index s e property) (.index s e' property')
  | call {s callee callee' args args'} :
      (Node.expr (.call s callee args)).specifier? = none → Expr.Becomes callee callee' →
      List.Forall₂ (Expr.Becomes) args args' →
      Expr.Becomes (.call s callee args) (.call s callee' args')
  | require {s s₁ s₂ raw entry args args'} :
      entry.IsEntry (ModulePath.id (ModulePath.resolve (unquote raw) path)) →
      List.Forall₂ (Expr.Becomes) args args' →
      Expr.Becomes (.call s (.ident s₁ "require") (.string s₂ raw :: args))
        (.call s (.ident s₁ "require") (entry :: args'))
  | new {s callee callee' args args'} : Expr.Becomes callee callee' →
      List.Forall₂ (Expr.Becomes) args args' →
      Expr.Becomes (.new s callee args) (.new s callee' args')
  | newBare {s e e'} : Expr.Becomes e e' → Expr.Becomes (.newBare s e) (.newBare s e')
  | tagged {s tag tag' quasi} : Expr.Becomes tag tag' →
      Expr.Becomes (.tagged s tag quasi) (.tagged s tag' quasi)
  | spread {s e e'} : Expr.Becomes e e' → Expr.Becomes (.spread s e) (.spread s e')
  | yield {s delegate e e'} : Option.Rel (Expr.Becomes) e e' →
      Expr.Becomes (.yield s delegate e) (.yield s delegate e')
  | await {s e e'} : Expr.Becomes e e' → Expr.Becomes (.await s e) (.await s e')

inductive Property.Becomes : Property → Property → Prop
  | pair {k k' e e'} : PropertyKey.Becomes k k' → Expr.Becomes e e' →
      Property.Becomes (.pair k e) (.pair k' e')
  | shorthand {name} : Property.Becomes (.shorthand name) (.shorthand name)
  | method {kind k k' f f'} : PropertyKey.Becomes k k' → Func.Becomes f f' →
      Property.Becomes (.method kind k f) (.method kind k' f')
  | spread {e e'} : Expr.Becomes e e' → Property.Becomes (.spread e) (.spread e')

inductive PropertyKey.Becomes : PropertyKey → PropertyKey → Prop
  | ident {name} : PropertyKey.Becomes (.ident name) (.ident name)
  | string {raw} : PropertyKey.Becomes (.string raw) (.string raw)
  | number {raw} : PropertyKey.Becomes (.number raw) (.number raw)
  | computed {e e'} : Expr.Becomes e e' → PropertyKey.Becomes (.computed e) (.computed e')

inductive Func.Becomes : Func → Func → Prop
  | mk {s name isAsync isGenerator ps ps' body body'} : List.Forall₂ (Param.Becomes) ps ps' →
      Stmt.ListBecomes body body' →
      Func.Becomes ⟨s, name, isAsync, isGenerator, ps, body⟩
        ⟨s, name, isAsync, isGenerator, ps', body'⟩

inductive Param.Becomes : Param → Param → Prop
  | plain {s b b' v v'} : Binding.Becomes b b' → Option.Rel (Expr.Becomes) v v' →
      Param.Becomes (.plain s b v) (.plain s b' v')
  | rest {s b b'} : Binding.Becomes b b' → Param.Becomes (.rest s b) (.rest s b')

inductive ClassMember.Becomes : ClassMember → ClassMember → Prop
  | method {s kind isStatic k k' f f'} : PropertyKey.Becomes k k' → Func.Becomes f f' →
      ClassMember.Becomes (.method s kind isStatic k f) (.method s kind isStatic k' f')
  | field {s isStatic k k' v v'} : PropertyKey.Becomes k k' → Option.Rel (Expr.Becomes) v v' →
      ClassMember.Becomes (.field s isStatic k v) (.field s isStatic k' v')

inductive Binding.Becomes : Binding → Binding → Prop
  | ident {s name} : Binding.Becomes (.ident s name) (.ident s name)
  | array {s es es'} : List.Forall₂ (ArrayElement.Becomes) es es' →
      Binding.Becomes (.array s es) (.array s es')
  | object {s es es'} : List.Forall₂ (ObjectElement.Becomes) es es' →
      Binding.Becomes (.object s es) (.object s es')

inductive ArrayElement.Becomes : ArrayElement → ArrayElement → Prop
  | hole : ArrayElement.Becomes .hole .hole
  | item {b b' v v'} : Binding.Becomes b b' → Option.Rel (Expr.Becomes) v v' →
      ArrayElement.Becomes (.item b v) (.item b' v')
  | rest {b b'} : Binding.Becomes b b' → ArrayElement.Becomes (.rest b) (.rest b')

inductive ObjectElement.Becomes : ObjectElement → ObjectElement → Prop
  | shorthand {s name v v'} : Option.Rel (Expr.Becomes) v v' →
      ObjectElement.Becomes (.shorthand s name v) (.shorthand s name v')
  | pair {k k' b b' v v'} : PropertyKey.Becomes k k' → Binding.Becomes b b' →
      Option.Rel (Expr.Becomes) v v' → ObjectElement.Becomes (.pair k b v) (.pair k' b' v')
  | rest {s name} : ObjectElement.Becomes (.rest s name) (.rest s name)

inductive Declarator.Becomes : Declarator → Declarator → Prop
  | mk {s b b' v v'} : Binding.Becomes b b' → Option.Rel (Expr.Becomes) v v' →
      Declarator.Becomes ⟨s, b, v⟩ ⟨s, b', v'⟩

inductive ForInit.Becomes : ForInit → ForInit → Prop
  | none : ForInit.Becomes .none .none
  | vars {kind ds ds'} : List.Forall₂ (Declarator.Becomes) ds ds' →
      ForInit.Becomes (.vars kind ds) (.vars kind ds')
  | expr {e e'} : Expr.Becomes e e' → ForInit.Becomes (.expr e) (.expr e')
  | pattern {b b'} : Binding.Becomes b b' → ForInit.Becomes (.pattern b) (.pattern b')

inductive SwitchCase.Becomes : SwitchCase → SwitchCase → Prop
  | mk {s e e' body body'} : Option.Rel (Expr.Becomes) e e' → Stmt.ListBecomes body body' →
      SwitchCase.Becomes ⟨s, e, body⟩ ⟨s, e', body'⟩

inductive Declaration.Becomes : Declaration → Declaration → Prop
  | vars {s kind ds ds'} : List.Forall₂ (Declarator.Becomes) ds ds' →
      Declaration.Becomes (.vars s kind ds) (.vars s kind ds')
  | function {s f f'} : Func.Becomes f f' → Declaration.Becomes (.function s f) (.function s f')
  | class {s name parent parent' ms ms'} : Option.Rel (Expr.Becomes) parent parent' →
      List.Forall₂ (ClassMember.Becomes) ms ms' →
      Declaration.Becomes (.class s name parent ms) (.class s name parent' ms')

inductive Stmt.ListBecomes : List Stmt → List Stmt → Prop
  | nil : Stmt.ListBecomes [] []
  | cons {s out rest outs} : Stmt.Becomes s out → Stmt.ListBecomes rest outs →
      Stmt.ListBecomes (s :: rest) (out ++ outs)

inductive Stmt.OneBecomes : Stmt → Stmt → Prop
  | mk {s out s'} : Stmt.Becomes s out → Stmt.Fills s.span out s' → Stmt.OneBecomes s s'

/-- Statements stand for one. -/
inductive Stmt.Becomes : Stmt → List Stmt → Prop
  | decl {d d'} : Declaration.Becomes d d' → Stmt.Becomes (.decl d) [.decl d']
  | block {s body body'} : Stmt.ListBecomes body body' →
      Stmt.Becomes (.block s body) [.block s body']
  | ifThen {s e e' yes yes'} : Expr.Becomes e e' → Stmt.OneBecomes yes yes' →
      Stmt.Becomes (.ifThen s e yes) [.ifThen s e' yes']
  | ifElse {s e e' yes yes' no no'} : Expr.Becomes e e' → Stmt.OneBecomes yes yes' →
      Stmt.OneBecomes no no' → Stmt.Becomes (.ifElse s e yes no) [.ifElse s e' yes' no']
  | switch {s e e' cs cs'} : Expr.Becomes e e' → List.Forall₂ (SwitchCase.Becomes) cs cs' →
      Stmt.Becomes (.switch s e cs) [.switch s e' cs']
  | forLoop {s init init' e e' u u' body body'} : ForInit.Becomes init init' →
      Option.Rel (Expr.Becomes) e e' → Option.Rel (Expr.Becomes) u u' → Stmt.OneBecomes body body' →
      Stmt.Becomes (.forLoop s init e u body) [.forLoop s init' e' u' body']
  | forIn {s l l' e e' body body'} : ForInit.Becomes l l' → Expr.Becomes e e' →
      Stmt.OneBecomes body body' → Stmt.Becomes (.forIn s l e body) [.forIn s l' e' body']
  | forOf {s l l' e e' body body'} : ForInit.Becomes l l' → Expr.Becomes e e' →
      Stmt.OneBecomes body body' → Stmt.Becomes (.forOf s l e body) [.forOf s l' e' body']
  | whileLoop {s e e' body body'} : Expr.Becomes e e' → Stmt.OneBecomes body body' →
      Stmt.Becomes (.whileLoop s e body) [.whileLoop s e' body']
  | doWhile {s e e' body body'} : Stmt.OneBecomes body body' → Expr.Becomes e e' →
      Stmt.Becomes (.doWhile s body e) [.doWhile s body' e']
  | breakTo {s label} : Stmt.Becomes (.breakTo s label) [.breakTo s label]
  | continueTo {s label} : Stmt.Becomes (.continueTo s label) [.continueTo s label]
  | ret {s e e'} : Option.Rel (Expr.Becomes) e e' → Stmt.Becomes (.ret s e) [.ret s e']
  | throw {s e e'} : Expr.Becomes e e' → Stmt.Becomes (.throw s e) [.throw s e']
  | tryCatch {s body body' s₁ b b' handler handler'} : Stmt.ListBecomes body body' →
      Option.Rel (Binding.Becomes) b b' → Stmt.ListBecomes handler handler' →
      Stmt.Becomes (.tryCatch s body s₁ b handler) [.tryCatch s body' s₁ b' handler']
  | tryFinally {s body body' last last'} : Stmt.ListBecomes body body' →
      Stmt.ListBecomes last last' →
      Stmt.Becomes (.tryFinally s body last) [.tryFinally s body' last']
  | tryCatchFinally {s body body' s₁ b b' handler handler' last last'} :
      Stmt.ListBecomes body body' → Option.Rel (Binding.Becomes) b b' →
      Stmt.ListBecomes handler handler' → Stmt.ListBecomes last last' →
      Stmt.Becomes (.tryCatchFinally s body s₁ b handler last)
        [.tryCatchFinally s body' s₁ b' handler' last']
  | labeled {s label body body'} : Stmt.OneBecomes body body' →
      Stmt.Becomes (.labeled s label body) [.labeled s label body']
  | expr {s e e'} : Expr.Becomes e e' → Stmt.Becomes (.expr s e) [.expr s e']
  | empty {s} : Stmt.Becomes (.empty s) [.empty s]
  | debugger {s} : Stmt.Becomes (.debugger s) [.debugger s]
  /- An import declares the names that it binds, the one for the whole module first, and no
  declaration stands for an import that binds nothing. -/
  | importNothing {s source} : Stmt.Becomes (.importFrom s source []) []
  | importFrom {s source specifiers ds} : specifiers ≠ [] →
      List.Forall₂
        (Declarator.Imports (ModulePath.id (ModulePath.resolve (unquote source) path)))
        (specifiers.filter ImportSpecifier.bindsModule ++
          specifiers.filter (fun specifier => !specifier.bindsModule)) ds →
      Stmt.Becomes (.importFrom s source specifiers) [.decl (.vars s .var ds)]
  /- An export keeps its declaration and writes what it exports into the table. -/
  | exportNames {s specifiers out} :
      Stmt.WriteAll (specifiers.map fun specifier =>
        ⟨specifier.exported, Expr.IsVariable specifier.name⟩) out →
      Stmt.Becomes (.exportNamed s none specifiers) out
  | exportFrom {s source specifiers out} :
      Stmt.WriteAll (specifiers.map fun specifier => ⟨specifier.exported,
        Expr.IsLookup (ModulePath.id (ModulePath.resolve (unquote source) path))
          specifier.name⟩) out →
      Stmt.Becomes (.exportNamed s (some source) specifiers) out
  | exportDecl {s d d' names out} : Declaration.Becomes d d' → d.Lists names →
      Stmt.WriteAll (names.map fun name => ⟨name, Expr.IsVariable name⟩) out →
      Stmt.Becomes (.exportDecl s d) (.decl d' :: out)
  | exportDefault {s e e' out} : Expr.Becomes e e' → (∀ d name, ¬ e'.Declares d name) →
      Stmt.WriteAll [⟨"default", (· = e')⟩] out → Stmt.Becomes (.exportDefault s e) out
  | exportDefaultNamed {s e e' d name out} : Expr.Becomes e e' → e'.Declares d name →
      Stmt.WriteAll [⟨"default", Expr.IsVariable name⟩] out →
      Stmt.Becomes (.exportDefault s e) (.decl d :: out)
  | exportAll {s s₁ s₂ s₃ s₄ source table value} : table.IsTable →
      value.IsLookup (ModulePath.id (ModulePath.resolve (unquote source) path)) "*" →
      Stmt.Becomes (.exportAll s source) [.expr s
        (.call s₁ (.dot s₂ (.ident s₃ "Object") s₄ "assign") [table, value])]

end

end

mutual

theorem Binding.lists_names : (b : Binding) → b.Lists b.names
  | .ident _ _ => .ident
  | .array _ elements => by
    obtain ⟨parts, hparts, hnames⟩ := ArrayElement.lists_listNames elements
    rw [Binding.names, hnames]
    exact .array hparts
  | .object _ properties => by
    obtain ⟨parts, hparts, hnames⟩ := ObjectElement.lists_listNames properties
    rw [Binding.names, hnames]
    exact .object hparts

theorem ArrayElement.lists_listNames : (es : List ArrayElement) →
    ∃ parts, List.Forall₂ ArrayElement.Lists es parts ∧
      ArrayElement.listNames es = parts.flatten
  | [] => ⟨[], .nil, rfl⟩
  | .hole :: rest => by
    obtain ⟨parts, hparts, hnames⟩ := ArrayElement.lists_listNames rest
    exact ⟨[] :: parts, .cons .hole hparts, hnames⟩
  | .item b _ :: rest => by
    obtain ⟨parts, hparts, hnames⟩ := ArrayElement.lists_listNames rest
    exact ⟨b.names :: parts, .cons (.item b.lists_names) hparts,
      congrArg (b.names ++ ·) hnames⟩
  | .rest b :: rest => by
    obtain ⟨parts, hparts, hnames⟩ := ArrayElement.lists_listNames rest
    exact ⟨b.names :: parts, .cons (.rest b.lists_names) hparts,
      congrArg (b.names ++ ·) hnames⟩

theorem ObjectElement.lists_listNames : (es : List ObjectElement) →
    ∃ parts, List.Forall₂ ObjectElement.Lists es parts ∧
      ObjectElement.listNames es = parts.flatten
  | [] => ⟨[], .nil, rfl⟩
  | .shorthand _ name _ :: rest => by
    obtain ⟨parts, hparts, hnames⟩ := ObjectElement.lists_listNames rest
    exact ⟨[name] :: parts, .cons .shorthand hparts, congrArg (name :: ·) hnames⟩
  | .pair _ b _ :: rest => by
    obtain ⟨parts, hparts, hnames⟩ := ObjectElement.lists_listNames rest
    exact ⟨b.names :: parts, .cons (.pair b.lists_names) hparts,
      congrArg (b.names ++ ·) hnames⟩
  | .rest _ name :: rest => by
    obtain ⟨parts, hparts, hnames⟩ := ObjectElement.lists_listNames rest
    exact ⟨[name] :: parts, .cons .rest hparts, congrArg (name :: ·) hnames⟩

end

theorem Declaration.lists_names (d : Declaration) : d.Lists d.names := by
  cases d with
  | function => exact .function
  | «class» => exact .class
  | vars s kind decls =>
    rw [Declaration.names, Declarator.listNames, List.flatMap_def]
    refine .vars ?_
    rw [List.forall₂_map_right_iff]
    exact List.forall₂_same.mpr fun d _ => d.binding.lists_names

open Make

theorem isEntry_moduleEntry (id : String) : (moduleEntry id).IsEntry id :=
  .mk

theorem isLookup_lookup (id name : String) : (lookup id name).IsLookup id name :=
  .mk .mk

theorem isTable_exportTable : exportTable.IsTable :=
  .mk

theorem writes_assign (entry : ExportEntry) {value : Expr} (h : entry.holds value) :
    (assign (exportEntry entry.name) value).Writes entry :=
  .mk isTable_exportTable h

theorem writeAll_sequence {s : Span} {entries : List ExportEntry} {es : List Expr}
    (h : List.Forall₂ (fun entry e => Expr.Writes entry e) entries es) :
    Stmt.WriteAll entries (Make.sequence s es) := by
  cases h with
  | nil => exact .none
  | cons hfirst hrest =>
    cases hrest with
    | nil => exact .one hfirst
    | cons hsecond hothers =>
      exact .several (by simp) (.cons hfirst (.cons hsecond hothers))

theorem becomes_importedVariables (path : String) (s : Span) (source : String)
    (specifiers : List ImportSpecifier) :
    Stmt.Becomes path (.importFrom s source specifiers)
      (importedVariables path s source specifiers) := by
  unfold importedVariables
  dsimp only
  split
  · rename_i hnil
    cases specifiers with
    | nil => exact .importNothing
    | cons first rest =>
      obtain ⟨hall, hothers⟩ := List.append_eq_nil_iff.mp hnil
      have hyes := List.filter_eq_nil_iff.mp hall first List.mem_cons_self
      have hno := List.filter_eq_nil_iff.mp hothers first List.mem_cons_self
      rw [Bool.not_eq_true] at hyes
      rw [hyes] at hno
      exact absurd rfl hno
  · rename_i hne
    refine .importFrom (fun hnil => hne (by rw [hnil]; rfl)) ?_
    rw [← ImportSpecifier.isAll_eq_bindsModule, List.forall₂_map_right_iff]
    refine List.forall₂_same.mpr fun specifier _ => ?_
    cases specifier <;> exact .mk (isLookup_lookup _ _)

theorem becomes_exportedNames (path : String) (s : Span) (source : Option String)
    (specifiers : List ExportSpecifier) :
    Stmt.Becomes path (.exportNamed s source specifiers)
      (exportedNames path s source specifiers) := by
  unfold exportedNames
  cases source with
  | none =>
    refine .exportNames (writeAll_sequence ?_)
    rw [List.forall₂_map_right_iff, List.forall₂_map_left_iff]
    exact List.forall₂_same.mpr fun specifier _ => writes_assign ⟨_, _⟩ .mk
  | some source =>
    refine .exportFrom (writeAll_sequence ?_)
    rw [List.forall₂_map_right_iff, List.forall₂_map_left_iff]
    exact List.forall₂_same.mpr fun specifier _ =>
      writes_assign ⟨_, _⟩ (isLookup_lookup _ _)

theorem becomes_exportedDefault {path : String} {s : Span} {e e' : Expr}
    (h : Expr.Becomes path e e') :
    Stmt.Becomes path (.exportDefault s e) (exportedDefault s e') := by
  unfold exportedDefault
  split
  · rename_i own f
    split
    · rename_i name hname
      exact .exportDefaultNamed h (.function hname) (.one (writes_assign ⟨_, _⟩ .mk))
    · rename_i hname
      refine .exportDefault h (fun d name hdeclares => ?_)
        (.one (writes_assign ⟨_, _⟩ rfl))
      cases hdeclares with
      | function hsome =>
        rw [hname] at hsome
        cases hsome
  · exact .exportDefaultNamed h .class (.one (writes_assign ⟨_, _⟩ .mk))
  · rename_i hfunction hclass
    refine .exportDefault h (fun d name hdeclares => ?_)
      (.one (writes_assign ⟨_, _⟩ rfl))
    cases hdeclares with
    | function => exact hfunction _ _ rfl
    | «class» => exact hclass _ _ _ _ rfl

theorem fills_oneStatement (s : Span) (body : List Stmt) :
    Stmt.Fills s body (oneStatement s body) := by
  unfold oneStatement
  split
  · exact .none
  · exact .one
  · rename_i hnil hone
    refine .several ?_
    match body with
    | [] => exact absurd rfl hnil
    | [stmt] => exact absurd rfl (hone stmt)
    | _ :: _ :: _ => exact Nat.le_add_left 2 _

theorem Stmt.OneBecomes.of_becomes {path : String} {s : Stmt} {out : List Stmt}
    (h : s.Becomes path out) : s.OneBecomes path (oneStatement s.span out) :=
  .mk h (fills_oneStatement _ _)

/-!
# Converting replaces as it should

By induction over trees of every sort, what is made of a tree may stand for it.
-/

def Tree.Becomes (path : String) : Tree → Tree → Prop
  | expr e, expr e' => e.Becomes path e'
  | exprs es, exprs es' => List.Forall₂ (Expr.Becomes path) es es'
  | option e, option e' => Option.Rel (Expr.Becomes path) e e'
  | elements es, elements es' => List.Forall₂ (Option.Rel (Expr.Becomes path)) es es'
  | properties ps, properties ps' => List.Forall₂ (Property.Becomes path) ps ps'
  | property p, property p' => p.Becomes path p'
  | key k, key k' => k.Becomes path k'
  | func f, func f' => f.Becomes path f'
  | params ps, params ps' => List.Forall₂ (Param.Becomes path) ps ps'
  | param p, param p' => p.Becomes path p'
  | members ms, members ms' => List.Forall₂ (ClassMember.Becomes path) ms ms'
  | member m, member m' => m.Becomes path m'
  | binding b, binding b' => b.Becomes path b'
  | handler b, handler b' => Option.Rel (Binding.Becomes path) b b'
  | arrayElements es, arrayElements es' => List.Forall₂ (ArrayElement.Becomes path) es es'
  | arrayElement e, arrayElement e' => e.Becomes path e'
  | objectElements es, objectElements es' => List.Forall₂ (ObjectElement.Becomes path) es es'
  | objectElement e, objectElement e' => e.Becomes path e'
  | declarators ds, declarators ds' => List.Forall₂ (Declarator.Becomes path) ds ds'
  | declarator d, declarator d' => d.Becomes path d'
  | forInit init, forInit init' => init.Becomes path init'
  | cases cs, cases cs' => List.Forall₂ (SwitchCase.Becomes path) cs cs'
  | case c, case c' => c.Becomes path c'
  | declaration d, declaration d' => d.Becomes path d'
  | stmts body, stmts body' => Stmt.ListBecomes path body body'
  | stmt s, stmts body => s.Becomes path body
  | _, _ => False

theorem becomes_call {path : String} {s : Span} {callee : Expr} {args : List Expr}
    (hcallee : callee.Becomes path (callee.toFactory path))
    (hargs : List.Forall₂ (Expr.Becomes path) args (Expr.listToFactory path args)) :
    Expr.Becomes path (.call s callee args) (Expr.toFactory path (.call s callee args)) := by
  rw [Expr.toFactory, linkedArgs]
  cases hsource : requiredSource? callee args with
  | none => exact .call ((Node.specifier_call s callee args).trans hsource) hcallee hargs
  | some raw =>
    unfold requiredSource? at hsource
    split at hsource
    · split at hsource
      · rename_i hname
        obtain rfl := Option.some.inj hsource
        subst hname
        cases hargs with
        | cons _ hrest => exact .require (isEntry_moduleEntry _) hrest
      · cases hsource
    · cases hsource

/-- A tree is converted to one that may stand for it. -/
theorem Tree.becomes_toFactory (path : String) (t : Tree) : t.Becomes path (t.toFactory path) := by
  induction t using Tree.induct with
  | step t ih =>
    cases t with
    | expr e =>
      simp only [parts] at ih
      cases e <;> simp only [ofExpr, List.forall_mem_cons] at ih
      case call => exact becomes_call ih.1 ih.2.1
      all_goals first
      | exact .atom rfl
      | constructor <;> first | exact ih.1 | exact ih.2.1 | exact ih.2.2.1
    | stmt s =>
      simp only [parts] at ih
      cases s <;> simp only [ofStmt, List.forall_mem_cons] at ih
      case importFrom => exact becomes_importedVariables _ _ _ _
      case exportNamed => exact becomes_exportedNames _ _ _ _
      case exportDefault => exact becomes_exportedDefault ih.1
      case exportDecl decl =>
        refine .exportDecl ih.1 decl.lists_names (writeAll_sequence ?_)
        rw [List.forall₂_map_right_iff, List.forall₂_map_left_iff]
        exact List.forall₂_same.mpr fun _ _ => writes_assign ⟨_, _⟩ .mk
      case exportAll => exact .exportAll isTable_exportTable (isLookup_lookup _ _)
      all_goals
        constructor <;> first
        | exact ih.1
        | exact ih.2.1
        | exact ih.2.2.1
        | exact ih.2.2.2.1
        | exact .of_becomes ih.1
        | exact .of_becomes ih.2.1
        | exact .of_becomes ih.2.2.1
        | exact .of_becomes ih.2.2.2.1
    | _ l =>
      cases l <;> simp only [parts, List.forall_mem_cons] at ih <;> constructor <;> first
      | exact ih.1
      | exact ih.2.1
      | exact ih.2.2.1

theorem Program.exports_eq_true_iff (p : Program) :
    p.exports = true ↔ ∃ n ∈ p.nodes, n.isExport = true := by
  have hmem : Link.exported ∈ Stmt.listLinks p ↔ Link.exported ∈ p.nodes.flatMap Node.links :=
    (Stmt.listLinks_collect p).mem_iff
  unfold Program.exports
  rw [List.contains_iff_mem, hmem, List.mem_flatMap]
  refine exists_congr fun n => and_congr_right fun _ => ?_
  unfold Node.links
  cases n.isExport <;> simp

/-- The factory of a program is a function whose body is the program with all its
imports and exports replaced, at any depth, and its record says that the module
has exports exactly if the program holds an export. -/
theorem Program.toFactory_replaces (path : String) (p : Program) :
    ∃ hasExports body,
      p.toFactory path =
        [.expr .nowhere (.assign .nowhere .assign
          (.dot .nowhere (.ident .nowhere "moduleFns") .nowhere (ModulePath.id path))
          (.function .nowhere ⟨.nowhere, none, false, false, [],
            .decl (.vars .nowhere .var [⟨.nowhere, .ident .nowhere "module",
              some (.object .nowhere [.pair (.ident "exports") (.object .nowhere []),
                .pair (.ident "es6") (.object .nowhere []),
                .pair (.ident "hasES6Exports") (.bool .nowhere hasExports)])⟩]) ::
              body ++ [.ret .nowhere (some (.ident .nowhere "module"))]⟩))] ∧
      Stmt.ListBecomes path p body ∧
      (hasExports = true ↔ ∃ n ∈ p.nodes, n.isExport = true) :=
  ⟨p.exports, Stmt.listToFactory path p, rfl, Tree.becomes_toFactory path (.stmts p),
    p.exports_eq_true_iff⟩

end ScriptBundler
