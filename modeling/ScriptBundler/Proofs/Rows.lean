import Mathlib.Logic.Relation
import ScriptBundler.Proofs.FactoryForm
import ScriptBundler.Proofs.Scopes

/-!
# Printing without added parentheses

A tree is printed as a row of cells: texts of its own and other trees, each at a
position that asks for a level.  An expression below that level is put in
parentheses.  In a parsed script and in its factory no expression is: the grammar
and the trees that stand for imports and exports keep the levels that the printer
asks for.
-/

namespace ScriptBundler

open Piece Grammar

/-!
# Rows

The row of a tree are the texts and the trees it is printed as, each tree with the
level that its position asks for.
-/

inductive Cell where
  | text (pieces : List Piece)
  /-- A tree at a position that asks for a level. -/
  | tree (required : Nat) (t : Tree)

namespace Cell

@[simp]
def any (t : Tree) : Cell :=
  tree Level.anything t

@[simp]
def comma {α : Type} (others : List α) : Cell :=
  text (if others.isEmpty then [] else put ",")

end Cell

namespace Tree

open Cell

@[simp]
def blockRow (body : List Stmt) : List Cell :=
  [text (put "\x7b"), any (stmts body), text (put "\x7d")]

@[simp]
def callableRow (ps : List Param) (body : List Stmt) : List Cell :=
  text (put "(") :: any (params ps) :: text (put ")") :: blockRow body

@[simp]
def methodRow (start : List Piece) (k : PropertyKey) (f : Func) : List Cell :=
  text (start ++ putIf f.isAsync "async " ++ putIf f.isGenerator "*") :: any (key k) ::
    callableRow f.params f.body

@[simp]
def valueRow (v : Option Expr) : List Cell :=
  [text (if v.isSome then put "=" else []), tree Level.assignment (option v)]

@[simp]
def classRow (name : Option String) (parent : Option Expr) (ms : List ClassMember) : List Cell :=
  [text (put "class" ++ namePieces name ++ if parent.isSome then put "extends" else []),
    tree Level.call (option parent), text (put "\x7b"), any (members ms), text (put "\x7d")]

@[simp]
def varsRow (kind : VarKind) (ds : List Declarator) : List Cell :=
  [text (put kind.text ++ stick " "), any (declarators ds)]

def exprRow : Expr → List Cell
  | e@(.null _) | e@(.bool _ _) | e@(.number _ _) | e@(.string _ _) | e@(.regex _ _ _)
  | e@(.template _ _) | e@(.ident _ _) | e@(.this _) | e@(.super _) => [text e.pieces]
  | .array _ es =>
    [text (put "["), any (elements es),
      text (holePieces (es.getLast?.any Option.isNone) ++ put "]")]
  | .object _ ps => [text (put "\x7b"), any (properties ps), text (put "\x7d")]
  | .function _ f => [any (func f)]
  | .arrow _ isAsync ps e =>
    [text (putIf isAsync "async" ++ put "("), any (params ps), text (put ")" ++ put "=>"),
      tree Level.assignment (expr e)]
  | .arrowBlock _ isAsync ps body =>
    text (putIf isAsync "async" ++ put "(") :: any (params ps) :: text (put ")" ++ put "=>") ::
      blockRow body
  | .class _ name parent ms => classRow name parent ms
  | .unary _ op e => [text (put op.text), tree Level.unary (expr e)]
  | .binary _ op e e' =>
    [tree op.leftLevel (expr e), text (put op.text), tree op.rightLevel (expr e')]
  | .assign _ op e e' =>
    [tree Level.updated (expr e), text (put op.text), tree Level.assignment (expr e')]
  | .assignPattern _ b e => [any (binding b), text (put "="), tree Level.assignment (expr e)]
  | .update _ op true e => [text (put op.text), tree Level.unary (expr e)]
  | .update _ op false e => [tree Level.updated (expr e), text (put op.text)]
  | .conditional _ test yes no =>
    [tree (Level.conditional + 1) (expr test), text (put "?"), tree Level.assignment (expr yes),
      text (put ":"), tree Level.assignment (expr no)]
  | .sequence _ es => [any (exprs es)]
  | .paren _ e => [text (put "("), any (expr e), text (put ")")]
  | .dot _ e sp name =>
    [tree Level.call (expr e), text ((if e.takesPoint then stick " " else []) ++ put "."),
      any (expr (.ident sp name))]
  | .index _ e e' => [tree Level.call (expr e), text (put "["), any (expr e'), text (put "]")]
  | .call _ e es => [tree Level.call (expr e), text (put "("), any (exprs es), text (put ")")]
  | .new _ e es =>
    [text (put "new"), tree Level.call (expr e), text (put "("), any (exprs es), text (put ")")]
  | .newBare _ e => [text (put "new"), tree Level.call (expr e)]
  | .tagged _ e quasi => [tree Level.call (expr e), text (put quasi)]
  | .spread _ e => [text (put "..."), tree Level.assignment (expr e)]
  | .yield _ delegate e =>
    [text (put "yield" ++ putIf delegate "*"), tree Level.assignment (option e)]
  | .await _ e => [text (put "await"), tree Level.unary (expr e)]

def stmtRow : Stmt → List Cell
  | .decl d => [any (declaration d)]
  | .block _ body => blockRow body
  | .ifThen _ e s => [text (put "if("), any (expr e), text (put ")"), any (stmt s)]
  | .ifElse _ e s s' =>
    [text (put "if("), any (expr e), text (put ")"), any (stmt s), text (put "else"),
      any (stmt s')]
  | .switch _ e cs =>
    [text (put "switch("), any (expr e), text (put ")\x7b"), any (cases cs), text (put "\x7d")]
  | .forLoop _ init e e' s =>
    [text (put "for("), any (forInit init), text (put ";"), any (option e), text (put ";"),
      any (option e'), text (put ")"), any (stmt s)]
  | .forIn _ left e s =>
    [text (put "for("), any (forInit left), text (put "in"), any (expr e), text (put ")"),
      any (stmt s)]
  | .forOf _ left e s =>
    [text (put "for("), any (forInit left), text (put "of"), tree Level.assignment (expr e),
      text (put ")"), any (stmt s)]
  | .whileLoop _ e s => [text (put "while("), any (expr e), text (put ")"), any (stmt s)]
  | .doWhile _ s e =>
    [text (put "do"), any (stmt s), text (put "while("), any (expr e), text (put ");")]
  | .ret _ e => [text (put "return"), any (option e), text (stick ";")]
  | .throw _ e => [text (put "throw"), any (expr e), text (stick ";")]
  | .tryCatch _ body _ b body' =>
    text (put "try") :: (blockRow body ++ text (put "catch") :: any (handler b) :: blockRow body')
  | .tryFinally _ body body' =>
    text (put "try") :: (blockRow body ++ text (put "finally") :: blockRow body')
  | .tryCatchFinally _ body _ b body' last =>
    text (put "try") :: (blockRow body ++ text (put "catch") :: any (handler b) ::
      (blockRow body' ++ text (put "finally") :: blockRow last))
  | .labeled _ label s => [text (put label ++ put ":"), any (stmt s)]
  | .expr _ e => [any (expr e), text (stick ";")]
  | .exportDefault _ e =>
    [text (put "export default "), tree Level.assignment (expr e),
      text (if e.declares then [] else stick ";")]
  | .exportDecl _ d => [text (put "export "), any (declaration d)]
  | s@(.breakTo _ _) | s@(.continueTo _ _) | s@(.empty _) | s@(.debugger _)
  | s@(.importFrom _ _ _) | s@(.exportNamed _ _ _) | s@(.exportAll _ _) => [text s.pieces]

/-- The cells that a tree is printed as.  An expression that may be missing is
asked for the level that its position has. -/
def row (required : Nat) : Tree → List Cell
  | expr e => exprRow e
  | stmt s => stmtRow s
  | exprs (e :: es) => [tree Level.assignment (expr e), comma es, any (exprs es)]
  | option (some e) => [tree required (expr e)]
  | elements (e :: es) => [tree Level.assignment (option e), comma es, any (elements es)]
  | properties (p :: ps) => [any (property p), comma ps, any (properties ps)]
  | property (.pair k e) => [any (key k), text (put ":"), tree Level.assignment (expr e)]
  | property (.shorthand name) => [text (put name)]
  | property (.method kind k f) => methodRow kind.pieces k f
  | property (.spread e) => [text (put "..."), tree Level.assignment (expr e)]
  | key (.ident raw) | key (.string raw) | key (.number raw) => [text (put raw)]
  | key (.computed e) => [text (put "["), tree Level.assignment (expr e), text (put "]")]
  | func f =>
    text (putIf f.isAsync "async" ++ put "function" ++ putIf f.isGenerator "*" ++
      (if f.isGenerator && f.name.isSome then stick " " else []) ++ namePieces f.name) ::
      callableRow f.params f.body
  | params (p :: ps) => [any (param p), comma ps, any (params ps)]
  | param (.plain _ b v) | arrayElement (.item b v) => any (binding b) :: valueRow v
  | param (.rest _ b) | arrayElement (.rest b) => [text (put "..."), any (binding b)]
  | members (m :: ms) => [any (member m), any (members ms)]
  | member (.method _ kind isStatic k f) =>
    methodRow (putIf isStatic "static " ++ kind.pieces) k f
  | member (.field _ isStatic k v) =>
    text (putIf isStatic "static ") :: any (key k) :: (valueRow v ++ [text (stick ";")])
  | binding (.ident _ name) => [text (put name)]
  | binding (.array _ es) =>
    [text (put "["), any (arrayElements es),
      text (holePieces (es.getLast?.any ArrayElement.isHole) ++ put "]")]
  | binding (.object _ es) => [text (put "\x7b"), any (objectElements es), text (put "\x7d")]
  | handler (some b) => [text (put "("), any (binding b), text (put ")")]
  | arrayElements (e :: es) => [any (arrayElement e), comma es, any (arrayElements es)]
  | objectElements (e :: es) => [any (objectElement e), comma es, any (objectElements es)]
  | objectElement (.shorthand _ name v) => text (put name) :: valueRow v
  | objectElement (.pair k b v) => any (key k) :: text (put ":") :: any (binding b) :: valueRow v
  | objectElement (.rest _ name) => [text (put "..." ++ put name)]
  | declarators (d :: ds) => [any (declarator d), comma ds, any (declarators ds)]
  | declarator d => any (binding d.binding) :: valueRow d.init
  | forInit (.vars kind ds) => varsRow kind ds
  | forInit (.expr e) => [any (expr e)]
  | forInit (.pattern b) => [any (binding b)]
  | cases (c :: cs) => [any (case c), any (cases cs)]
  | case c =>
    [text (put (if c.test.isSome then "case" else "default")), any (option c.test),
      text (put ":"), any (stmts c.body)]
  | declaration (.vars _ kind ds) => varsRow kind ds ++ [text (stick ";")]
  | declaration (.function _ f) => [any (func f)]
  | declaration (.class _ name parent ms) => classRow name parent ms
  | stmts (s :: body) => [any (stmt s), any (stmts body)]
  | exprs [] | option none | elements [] | properties [] | params [] | members [] | handler none
  | arrayElements [] | arrayElement .hole | objectElements [] | declarators [] | forInit .none
  | cases [] | stmts [] => []

/-!
# Rows are what is printed

Printing a tree is printing the cells of its row.
-/

@[simp]
def printed (required : Nat) : Tree → List Piece
  | expr e => e.fit required e.pieces
  | exprs es => commas (Expr.listPieces es)
  | option e => Expr.optionPieces required e
  | elements es => commas (Expr.elementPieces es)
  | properties ps => commas (Property.listPieces ps)
  | property p => p.pieces
  | key k => k.pieces
  | func f => f.pieces
  | params ps => commas (Param.listPieces ps)
  | param p => p.pieces
  | members ms => ClassMember.listPieces ms
  | member m => m.pieces
  | binding b => b.pieces
  | handler b => Binding.handlerPieces b
  | arrayElements es => commas (ArrayElement.listPieces es)
  | arrayElement e => e.pieces
  | objectElements es => commas (ObjectElement.listPieces es)
  | objectElement e => e.pieces
  | declarators ds => commas (Declarator.listPieces ds)
  | declarator d => d.pieces
  | forInit init => init.pieces
  | cases cs => SwitchCase.listPieces cs
  | case c => c.pieces
  | declaration d => d.pieces
  | stmts body => Stmt.listPieces body
  | stmt s => s.pieces

end Tree

namespace Cell

@[simp]
def pieces : Cell → List Piece
  | text pieces => pieces
  | tree required t => t.printed required

/-- What a cell is printed as with no parentheses around it. -/
def own : Cell → List Piece
  | text pieces => pieces
  | tree required t => (t.row required).flatMap pieces

/-- An expression has the level that its position asks for. -/
@[simp]
def Fits : Cell → Prop
  | tree required (.expr e) => required ≤ e.level
  | _ => True

/-- The parentheses that the printer adds around an expression that does not
fit. -/
def wrap : Cell → List Piece → List Piece
  | tree required (.expr e), pieces => e.fit required pieces
  | _, pieces => pieces

end Cell

theorem Piece.commas_cons (a : List Piece) (rest : List (List Piece)) :
    commas (a :: rest) = a ++ ((if rest.isEmpty then [] else put ",") ++ commas rest) := by
  cases rest <;> simp [commas]

namespace Cell

section
variable {α : Type} {f : List α → List (List Piece)} {g : α → List Piece}

theorem commas_items (hcons : ∀ x xs, f (x :: xs) = g x :: f xs) (hnil : f [] = []) (x : α)
    (xs : List α) :
    commas (f (x :: xs)) = g x ++ ((if xs.isEmpty then [] else put ",") ++ commas (f xs)) := by
  rw [hcons, Piece.commas_cons, eq_map_of_cons hnil hcons xs, List.isEmpty_map]

end

theorem fit_anything (e : Expr) (own : List Piece) : e.fit Level.anything own = own :=
  Expr.fit_of_le (Nat.zero_le _)

theorem valuePieces_eq (v : Option Expr) : Expr.valuePieces v =
    (if v.isSome then put "=" else []) ++ Expr.optionPieces Level.assignment v := by
  cases v <;> rfl

theorem parentPieces_eq (v : Option Expr) : Expr.parentPieces v =
    (if v.isSome then put "extends" else []) ++ Expr.optionPieces Level.call v := by
  cases v <;> rfl

theorem methodPieces_eq (key : List Piece) (f : Func) : f.methodPieces key =
    putIf f.isAsync "async " ++ putIf f.isGenerator "*" ++ key ++
      parens (commas (Param.listPieces f.params)) ++ braces (Stmt.listPieces f.body) := by
  cases f
  rfl

theorem flatMap_exprRow (e : Expr) : (Tree.exprRow e).flatMap pieces = e.pieces := by
  cases e with
  | update _ _ leading => cases leading <;> simp [Tree.exprRow, Expr.pieces]
  | _ => simp [Tree.exprRow, Expr.pieces, fit_anything, parentPieces_eq, parens, brackets, braces]

theorem flatMap_stmtRow (s : Stmt) : (Tree.stmtRow s).flatMap pieces = s.pieces := by
  cases s <;> simp [Tree.stmtRow, Stmt.pieces, fit_anything, braces]

theorem pieces_eq_wrap (c : Cell) : c.pieces = c.wrap c.own := by
  cases c with
  | text => rfl
  | tree required t =>
    cases t with
    | expr e => exact congrArg (e.fit required) (flatMap_exprRow e).symm
    | stmt s => exact (flatMap_stmtRow s).symm
    | exprs l | elements l | properties l | params l | arrayElements l | objectElements l
    | declarators l =>
      cases l with
      | nil => rfl
      | cons x xs =>
        exact (commas_items (fun _ _ => rfl) rfl x xs).trans (by simp [wrap, own, Tree.row])
    | option v | members v | stmts v | cases v | handler v =>
      cases v <;> simp [wrap, own, Tree.row, Expr.optionPieces, ClassMember.listPieces,
        Stmt.listPieces, SwitchCase.listPieces, Binding.handlerPieces, parens]
    | property v | key v | param v | member v | binding v | arrayElement v | objectElement v
    | declarator v | forInit v | declaration v =>
      cases v <;> simp [wrap, own, Tree.row, Property.pieces, PropertyKey.pieces, Param.pieces,
        ClassMember.pieces, Binding.pieces, ArrayElement.pieces, ObjectElement.pieces,
        Declarator.pieces, ForInit.pieces, Declaration.pieces, fit_anything, valuePieces_eq,
        parentPieces_eq, methodPieces_eq, parens, brackets, braces]
    | func v | case v =>
      cases v
      simp [wrap, own, Tree.row, Func.pieces, SwitchCase.pieces, parens, braces]

/-!
# Cells that fit

A cell that fits is printed with no parentheses around it.
-/

def Within (inner outer : Cell) : Prop :=
  Relation.ReflTransGen (fun outer inner => ∃ n t, outer = tree n t ∧ inner ∈ t.row n) outer inner

/-- A cell fits, and so do the cells of its row. -/
inductive Snug : Cell → Prop
  | text {pieces : List Piece} : Snug (text pieces)
  | tree {required : Nat} {t : Tree} : (Cell.tree required t).Fits →
      (∀ c ∈ t.row required, Snug c) → Snug (tree required t)

theorem snug_tree {required : Nat} {t : Tree} :
    Snug (tree required t) ↔ (tree required t).Fits ∧ ∀ c ∈ t.row required, Snug c :=
  ⟨fun | .tree h h' => ⟨h, h'⟩, fun h => .tree h.1 h.2⟩

theorem Snug.fits {c : Cell} : c.Snug → c.Fits
  | .text => trivial
  | .tree h _ => h

theorem Snug.within {c inner : Cell} (h : c.Snug) (hwithin : inner.Within c) : inner.Snug := by
  induction hwithin with
  | refl => exact h
  | tail _ hcell ih =>
    obtain ⟨n, t, rfl, hmem⟩ := hcell
    exact (snug_tree.mp ih).2 _ hmem

theorem pieces_eq_own {c : Cell} (h : c.Fits) : c.pieces = c.own := by
  rw [pieces_eq_wrap]
  unfold wrap
  split
  · exact Expr.fit_of_le h
  · rfl

end Cell

def Expr.Snug (e : Expr) : Prop :=
  ∀ c ∈ Tree.exprRow e, c.Snug

namespace Cell

section
variable {required : Nat} {e : Expr}

@[simp]
theorem snug_text {pieces : List Piece} : Snug (text pieces) ↔ True :=
  iff_true_intro .text

@[simp]
theorem snug_expr : Snug (tree required (.expr e)) ↔ required ≤ e.level ∧ e.Snug :=
  snug_tree

@[simp]
theorem snug_ident {sp : Span} {name : String} : (Expr.ident sp name).Snug ↔ True :=
  iff_true_intro (List.forall_mem_singleton.mpr .text)

@[simp]
theorem snug_noExprs : Snug (tree required (.exprs [])) ↔ True :=
  iff_true_intro (.tree trivial nofun)

@[simp]
theorem snug_exprs {es : List Expr} : Snug (tree required (.exprs (e :: es))) ↔
    (Level.assignment ≤ e.level ∧ e.Snug) ∧ Snug (any (.exprs es)) := by
  simp [snug_tree (t := .exprs _), Tree.row]

@[simp]
theorem snug_noDeclarators : Snug (tree required (.declarators [])) ↔ True :=
  iff_true_intro (.tree trivial nofun)

@[simp]
theorem snug_none : Snug (tree required (.option none)) ↔ True :=
  iff_true_intro (.tree trivial nofun)

@[simp]
theorem snug_some : Snug (tree required (.option (some e))) ↔ required ≤ e.level ∧ e.Snug := by
  rw [snug_tree, Tree.row, List.forall_mem_singleton, snug_expr, Fits, true_and]
  exact nofun

@[simp]
theorem snug_decl {d : Declaration} :
    Snug (tree required (.stmt (.decl d))) ↔ Snug (any (.declaration d)) := by
  rw [snug_tree, Tree.row, Tree.stmtRow, List.forall_mem_singleton, Fits, true_and]
  exact nofun

@[simp]
theorem anything_le (n : Nat) : Level.anything ≤ n ↔ True :=
  iff_true_intro (Nat.zero_le n)

end
end Cell

namespace Grammar

open Cell

@[simp]
def ItemClass.level : ItemClass → Nat
  | .arg | .element => Level.assignment
  | _ => Level.anything

@[simp]
def Phrase.cells : Phrase → List Cell
  | .item _ c x => (c.tree x).map (tree c.level)
  | .value _ e => [tree Level.assignment (.option e)]
  | .classRest _ _ base ms => [tree Level.call (.option base), any (.members ms)]
  | .parent _ e => [tree Level.call (.option e)]
  | .exported _ e => [tree Level.assignment (.expr e)]
  | ph => ph.trees.map any

attribute [local simp] Phrase.trees ItemClass.tree ItemClass.trees

section
variable {e : Expr}

theorem call_le_of_isObject (h : IsObject e) : Level.call ≤ e.level :=
  h.1 ▸ by decide

theorem call_le_of_constructs (h : constructs e = true ∨ isNewBare e = true) :
    Level.call ≤ e.level :=
  closed_of_constructs h ▸ by decide

theorem updated_le_of_isAssignable (h : e.isAssignable = true) : Level.updated ≤ e.level :=
  Expr.closed_of_isAssignable h ▸ by decide

theorem le_closed : Level.assignment ≤ Level.closed ∧ Level.updated ≤ Level.closed ∧
    Level.call ≤ Level.closed := by
  decide

end

/-- The printer asks for the levels that the grammar asks for. -/
theorem Formed.snug {T : Texts} {ph : Phrase} (h : Formed T ph) : ∀ c ∈ ph.cells, c.Snug := by
  induction h with
  | @noItems _ c =>
    cases c <;> first
      | exact List.forall_mem_singleton.mpr (.tree trivial nofun)
      | exact nofun
  | @hole _ c x xs hhole _ ih =>
    have hitem : ∀ cell ∈ (c.tree x).map (tree c.level), cell.Snug := by
      cases c <;> cases hhole <;> exact List.forall_mem_singleton.mpr (.tree trivial nofun)
    cases c <;> cases hhole <;>
      exact List.forall_mem_singleton.mpr (.tree trivial (by simp_all [Tree.row]))
  | @moreItems _ c _ _ _ _ ih ih' =>
    cases c <;> first
      | exact List.forall_mem_singleton.mpr (.tree trivial (by simp_all [Tree.row]))
      | exact nofun
  | @leftVars _ sp _ b _ ih =>
    have hdecl : Snug (any (.declarator ⟨sp, b, none⟩)) := .tree trivial (by simp_all [Tree.row])
    have hdecls : Snug (any (.declarators [⟨sp, b, none⟩])) :=
      .tree trivial (by simp_all [Tree.row])
    exact List.forall_mem_singleton.mpr (.tree trivial (by simp_all [Tree.row]))
  | @conditional _ _ test _ _ _ hlevel =>
    have htest : Level.conditional + 1 ≤ test.level := hlevel
    refine List.forall_mem_singleton.mpr (snug_expr.mpr ⟨Nat.zero_le _, ?_⟩)
    rw [Expr.Snug]
    simp_all [Tree.exprRow]
  | spreadArg | exportedFunc | exportedClass =>
    refine List.forall_mem_singleton.mpr (snug_expr.mpr ⟨Nat.le_of_ble_eq_true rfl, ?_⟩)
    rw [Expr.Snug]
    simp_all [Tree.exprRow]
  | null | bool | this | super | number | string | regex | quasi | ident | array | object
  | function | «class» | paren | dot | index | call | tagged | new | newBare | unary | await
  | leading | trailing | binary | assign | assignPattern | arrow | arrowBlock | yieldValue
  | yieldNothing | sequence =>
    refine List.forall_mem_singleton.mpr (snug_expr.mpr ⟨Nat.zero_le _, ?_⟩)
    rw [Expr.Snug]
    simp_all [Tree.exprRow, call_le_of_isObject, call_le_of_constructs,
      updated_le_of_isAssignable, le_closed]
  | other | moreOthers | plainArg | element | imported | exportedName | noValue | value
  | template | templateRest | substitution | func | callable | arrowHead | classRest | noParent
  | parent | block | condition | left_out | given | exportedValue | clauseBoth | clauseList
  | importAll | importNames =>
    simp_all [le_closed]
  | vars | classDecl | functionDecl =>
    refine List.forall_mem_singleton.mpr (snug_decl.mpr (.tree trivial ?_))
    simp_all [Tree.row]
  | handler | bareHandler =>
    refine List.forall_mem_cons.mpr ⟨.tree trivial ?_, by simp_all⟩
    simp_all [Tree.row]
  | _ =>
    refine List.forall_mem_singleton.mpr (.tree trivial ?_)
    simp_all [Tree.row, Tree.stmtRow]

end Grammar

namespace Program

open Grammar

theorem formed_any_of_ofSource {source : String} {p : Program} (h : ofSource source = .ok p) :
    Formed .any (.stmts .top [] p) := by
  obtain ⟨j, hspells, -⟩ := spells_of_ofSource h
  exact hspells.formed ⟨fun _ _ => trivial, fun _ => trivial, fun _ => trivial⟩
    fun _ _ _ => trivial

/-- The printer adds no parentheses to a parsed script or to its factory: every
expression has the level that its position asks for. -/
theorem print_unwrapped {source : String} {p : Program} (h : ofSource source = .ok p)
    (path : String) : ∀ q ∈ [p, p.toFactory path],
      q.print = Piece.render (Cell.any (.stmts q)).pieces ∧
      ∀ c : Cell, c.Within (.any (.stmts q)) → c.Fits ∧ c.pieces = c.own := by
  have hp : Formed .any (.stmts .top [] p) := formed_any_of_ofSource h
  have hfactory : Formed .any (.stmts .top [] (p.toFactory path)) :=
    formed_toFactory hp ⟨.identifier, rfl, trivial⟩ (fun _ _ => ⟨.identifier, rfl, trivial⟩)
      fun _ _ _ _ => ⟨.identifier, rfl, trivial⟩
  have hsnug : ∀ q ∈ [p, p.toFactory path], (Cell.any (.stmts q)).Snug :=
    List.forall_mem_cons.mpr ⟨hp.snug _ (.head _),
      List.forall_mem_singleton.mpr (hfactory.snug _ (.head _))⟩
  intro q hq
  refine ⟨rfl, fun c hc => ?_⟩
  have hfits : c.Fits := ((hsnug q hq).within hc).fits
  exact ⟨hfits, Cell.pieces_eq_own hfits⟩

/-- Parentheses that were written, operators, a default export and a regular
expression. -/
theorem print_unwrapped_operators :
    ∃ p, ofSource "export default (a+b)*c**d;x=/r/?-1:y=z;" = .ok p ∧
      ∀ q ∈ [p, p.toFactory "index.js"],
        q.print = Piece.render (Cell.any (.stmts q)).pieces ∧
        ∀ c : Cell, c.Within (.any (.stmts q)) → c.Fits ∧ c.pieces = c.own := by
  have hrun : (ofSource "export default (a+b)*c**d;x=/r/?-1:y=z;").toOption.any
      (fun _ => true) = true := by
    decide +kernel
  obtain ⟨p, hp, -⟩ := exists_ok_of_any hrun
  exact ⟨p, hp, print_unwrapped hp "index.js"⟩

end Program
end ScriptBundler
