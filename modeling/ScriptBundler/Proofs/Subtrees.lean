import ScriptBundler.Tree

/-!
# Trees of every sort

The parts of a tree are of many sorts, each defined by the others.  Here they
are one type, so that what holds of all trees is said and shown once: of a tree
if it holds of its parts.
-/

namespace ScriptBundler

section
variable {α β : Type}

theorem eq_map_of_cons {f : List α → List β} {g : α → β} (hnil : f [] = [])
    (hcons : ∀ x xs, f (x :: xs) = g x :: f xs) (xs : List α) : f xs = xs.map g := by
  induction xs with
  | nil => exact hnil
  | cons x xs ih => rw [hcons, ih, List.map_cons]

theorem eq_flatMap_of_cons {f : List α → List β} {g : α → List β} (hnil : f [] = [])
    (hcons : ∀ x xs, f (x :: xs) = g x ++ f xs) (xs : List α) : f xs = xs.flatMap g := by
  induction xs with
  | nil => exact hnil
  | cons x xs ih => rw [hcons, ih, List.flatMap_cons]

end

inductive Tree where
  | expr (e : Expr)
  | exprs (es : List Expr)
  | option (e : Option Expr)
  | elements (es : List (Option Expr))
  | properties (ps : List Property)
  | property (p : Property)
  | key (k : PropertyKey)
  | func (f : Func)
  | params (ps : List Param)
  | param (p : Param)
  | members (ms : List ClassMember)
  | member (m : ClassMember)
  | binding (b : Binding)
  | handler (b : Option Binding)
  | arrayElements (es : List ArrayElement)
  | arrayElement (e : ArrayElement)
  | objectElements (es : List ObjectElement)
  | objectElement (e : ObjectElement)
  | declarators (ds : List Declarator)
  | declarator (d : Declarator)
  | forInit (init : ForInit)
  | cases (cs : List SwitchCase)
  | case (c : SwitchCase)
  | declaration (d : Declaration)
  | stmts (body : List Stmt)
  | stmt (s : Stmt)

namespace Tree

@[simp]
def ofExpr : Expr → List Tree
  | .null _ | .bool _ _ | .number _ _ | .string _ _ | .regex _ _ _ | .template _ _
  | .ident _ _ | .this _ | .super _ => []
  | .array _ es => [elements es]
  | .object _ ps => [properties ps]
  | .function _ f => [func f]
  | .arrow _ _ ps e => [params ps, expr e]
  | .arrowBlock _ _ ps body => [params ps, stmts body]
  | .class _ _ parent ms => [option parent, members ms]
  | .unary _ _ e | .update _ _ _ e | .paren _ e | .newBare _ e | .tagged _ e _ | .spread _ e
  | .await _ e => [expr e]
  | .binary _ _ e e' | .assign _ _ e e' | .index _ e e' => [expr e, expr e']
  | .dot _ e sp name => [expr e, expr (.ident sp name)]
  | .assignPattern _ b e => [binding b, expr e]
  | .conditional _ test yes no => [expr test, expr yes, expr no]
  | .sequence _ es => [exprs es]
  | .call _ e es | .new _ e es => [expr e, exprs es]
  | .yield _ _ e => [option e]

@[simp]
def ofStmt : Stmt → List Tree
  | .decl d | .exportDecl _ d => [declaration d]
  | .block _ body => [stmts body]
  | .ifThen _ e s | .whileLoop _ e s | .doWhile _ s e => [expr e, stmt s]
  | .ifElse _ e s s' => [expr e, stmt s, stmt s']
  | .switch _ e cs => [expr e, cases cs]
  | .forLoop _ init e e' s => [forInit init, option e, option e', stmt s]
  | .forIn _ init e s | .forOf _ init e s => [forInit init, expr e, stmt s]
  | .ret _ e => [option e]
  | .throw _ e | .expr _ e | .exportDefault _ e => [expr e]
  | .tryCatch _ body _ b body' => [stmts body, handler b, stmts body']
  | .tryFinally _ body body' => [stmts body, stmts body']
  | .tryCatchFinally _ body _ b body' last => [stmts body, handler b, stmts body', stmts last]
  | .labeled _ _ s => [stmt s]
  | .breakTo _ _ | .continueTo _ _ | .empty _ | .debugger _ | .importFrom _ _ _
  | .exportNamed _ _ _ | .exportAll _ _ => []

@[simp]
def parts : Tree → List Tree
  | expr e => ofExpr e
  | stmt s => ofStmt s
  | exprs (e :: es) => [expr e, exprs es]
  | option (some e) => [expr e]
  | elements (e :: es) => [option e, elements es]
  | properties (p :: ps) => [property p, properties ps]
  | property (.pair k e) => [key k, expr e]
  | property (.method _ k f) => [key k, func f]
  | property (.spread e) => [expr e]
  | key (.computed e) => [expr e]
  | func f => [params f.params, stmts f.body]
  | params (p :: ps) => [param p, params ps]
  | param (.plain _ b e) => [binding b, option e]
  | param (.rest _ b) => [binding b]
  | members (m :: ms) => [member m, members ms]
  | member (.method _ _ _ k f) => [key k, func f]
  | member (.field _ _ k e) => [key k, option e]
  | binding (.array _ es) => [arrayElements es]
  | binding (.object _ es) => [objectElements es]
  | handler (some b) => [binding b]
  | arrayElements (e :: es) => [arrayElement e, arrayElements es]
  | arrayElement (.item b e) => [binding b, option e]
  | arrayElement (.rest b) => [binding b]
  | objectElements (e :: es) => [objectElement e, objectElements es]
  | objectElement (.shorthand _ _ e) => [option e]
  | objectElement (.pair k b e) => [key k, binding b, option e]
  | declarators (d :: ds) => [declarator d, declarators ds]
  | declarator d => [binding d.binding, option d.init]
  | forInit (.vars _ ds) => [declarators ds]
  | forInit (.expr e) => [expr e]
  | forInit (.pattern b) => [binding b]
  | cases (c :: cs) => [case c, cases cs]
  | case c => [option c.test, stmts c.body]
  | declaration (.vars _ _ ds) => [declarators ds]
  | declaration (.function _ f) => [func f]
  | declaration (.class _ _ parent ms) => [option parent, members ms]
  | stmts (s :: body) => [stmt s, stmts body]
  | exprs [] | option none | elements [] | properties [] | property (.shorthand _)
  | key (.ident _) | key (.string _) | key (.number _) | params [] | members []
  | binding (.ident _ _) | handler none | arrayElements [] | arrayElement .hole
  | objectElements [] | objectElement (.rest _ _) | declarators [] | forInit .none | cases []
  | stmts [] => []

theorem sizeOf_lt_of_mem_parts {t part : Tree} (h : part ∈ t.parts) : sizeOf part < sizeOf t := by
  cases t with
  | expr e =>
    cases e with
    | dot span =>
      have hspan : 0 < sizeOf span := by
        cases span
        rw [Span.mk.sizeOf_spec]
        omega
      simp at h
      grind
    | _ => simp at h <;> grind
  | stmt s => cases s <;> simp at h <;> grind
  | func f => cases f; simp at h; grind
  | declarator d => cases d; simp at h; grind
  | case c => cases c; simp at h; grind
  | _ l => cases l <;> simp at h <;> grind

/-- What holds of a tree if it holds of its parts holds of all trees. -/
theorem induct {P : Tree → Prop} (step : ∀ t, (∀ part ∈ t.parts, P part) → P t) (t : Tree) : P t :=
  step t fun part _ => induct step part
termination_by sizeOf t
decreasing_by exact sizeOf_lt_of_mem_parts ‹_›

end Tree
end ScriptBundler
