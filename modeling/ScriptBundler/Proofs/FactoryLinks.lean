import Mathlib.Data.List.Basic
import ScriptBundler.Module.Factory
import ScriptBundler.Proofs.Nodes
import ScriptBundler.Proofs.Subtrees

/-!
# Factories have no links

The factory of a program names its modules by their ids, so nothing is left in
it that is an import, an export or a `require` call with a literal.  Converting
it once more only wraps it again.
-/

namespace ScriptBundler

open Make

/-!
# Links of a tree and of its nodes

Collecting links while visiting a tree finds what reading every node alone
finds, with repetitions.
-/

theorem Node.specifier_call (span : Span) (callee : Expr) (args : List Expr) :
    (Node.expr (.call span callee args)).specifier? = requiredSource? callee args := by
  unfold requiredSource?
  split
  · rfl
  · unfold Node.specifier?
    split <;> grind -linarith

theorem Node.links_call (span : Span) (callee : Expr) (args : List Expr) :
    (Node.expr (.call span callee args)).links = callLinks callee args := by
  simp [Node.links, Node.isExport, Node.specifier_call, callLinks]

namespace Tree

@[simp]
def links : Tree → List Link
  | expr e => e.links
  | exprs es => Expr.listLinks es
  | option e => Expr.optionLinks e
  | elements es => Expr.elementLinks es
  | properties ps => Property.listLinks ps
  | property p => p.links
  | key k => k.links
  | func f => f.links
  | params ps => Param.listLinks ps
  | param p => p.links
  | members ms => ClassMember.listLinks ms
  | member m => m.links
  | binding b => b.links
  | handler b => Binding.optionLinks b
  | arrayElements es => ArrayElement.listLinks es
  | arrayElement e => e.links
  | objectElements es => ObjectElement.listLinks es
  | objectElement e => e.links
  | declarators ds => Declarator.listLinks ds
  | declarator d => d.links
  | forInit init => init.links
  | cases cs => SwitchCase.listLinks cs
  | case c => c.links
  | declaration d => d.links
  | stmts body => Stmt.listLinks body
  | stmt s => s.links

@[simp]
def nodes : Tree → List Node
  | expr e => e.nodes
  | exprs es => Expr.listNodes es
  | option e => Expr.optionNodes e
  | elements es => Expr.elementNodes es
  | properties ps => Property.listNodes ps
  | property p => p.nodes
  | key k => k.nodes
  | func f => f.nodes
  | params ps => Param.listNodes ps
  | param p => p.nodes
  | members ms => ClassMember.listNodes ms
  | member m => m.nodes
  | binding b => b.nodes
  | handler b => Binding.optionNodes b
  | arrayElements es => ArrayElement.listNodes es
  | arrayElement e => e.nodes
  | objectElements es => ObjectElement.listNodes es
  | objectElement e => e.nodes
  | declarators ds => Declarator.listNodes ds
  | declarator d => d.nodes
  | forInit init => init.nodes
  | cases cs => SwitchCase.listNodes cs
  | case c => c.nodes
  | declaration d => d.nodes
  | stmts body => Stmt.listNodes body
  | stmt s => s.nodes

theorem count_append {link : Link} {found found' : List Link} {nodes nodes' : List Node}
    (h : found.count link = (nodes.flatMap Node.links).count link)
    (h' : found'.count link = (nodes'.flatMap Node.links).count link) :
    (found ++ found').count link = ((nodes ++ nodes').flatMap Node.links).count link := by
  rw [List.flatMap_append, List.count_append, List.count_append, h, h']

theorem count_links (link : Link) (t : Tree) :
    t.links.count link = (t.nodes.flatMap Node.links).count link := by
  induction t using Tree.induct with
  | step t ih =>
    cases t with
    | expr e =>
      cases e with
      | call span callee args =>
        simp only [parts, ofExpr, List.forall_mem_cons] at ih
        have hcall : (callLinks callee args).count link =
            ([Node.expr (.call span callee args)].flatMap Node.links).count link := by
          rw [List.flatMap_singleton, Node.links_call]
        exact count_append (count_append hcall ih.1) ih.2.1
      | _ =>
        simp only [parts, ofExpr, List.forall_mem_cons] at ih
        first
        | rfl
        | exact ih.1
        | exact count_append ih.1 ih.2.1
        | exact count_append (count_append ih.1 ih.2.1) ih.2.2.1
    | stmt s =>
      simp only [parts] at ih
      cases s <;> simp only [ofStmt, List.forall_mem_cons] at ih
      case doWhile =>
        -- The condition is visited before the body that stands in front of it.
        have hswap := count_append ih.2.1 ih.1
        rw [List.count_append, Nat.add_comm, ← List.count_append] at hswap
        exact hswap
      case exportNamed _ source _ => cases source <;> rfl
      case exportDefault span value =>
        exact @count_append link [.exported] _ [.stmt (.exportDefault span value)] _ rfl ih.1
      case exportDecl span decl =>
        exact @count_append link [.exported] _ [.stmt (.exportDecl span decl)] _ rfl ih.1
      all_goals first
      | rfl
      | exact ih.1
      | exact count_append ih.1 ih.2.1
      | exact count_append (count_append ih.1 ih.2.1) ih.2.2.1
      | exact count_append (count_append (count_append ih.1 ih.2.1) ih.2.2.1) ih.2.2.2.1
    | _ l =>
      cases l <;> simp only [parts, List.forall_mem_cons] at ih <;> first
      | rfl
      | exact ih.1
      | exact count_append ih.1 ih.2.1
      | exact count_append (count_append ih.1 ih.2.1) ih.2.2.1

end Tree

/-- Links found while visiting are those that the nodes make. -/
def Link.Collects (found : List Link) (nodes : List Node) : Prop :=
  found.Perm (nodes.flatMap Node.links)

theorem Stmt.listLinks_collect (body : List Stmt) :
    Link.Collects (Stmt.listLinks body) (Stmt.listNodes body) :=
  List.perm_iff_count.mpr fun link => Tree.count_links link (.stmts body)

theorem Program.node_links_of_listLinks_eq_nil {p : Program} (h : Stmt.listLinks p = [])
    {n : Node} (hn : n ∈ p.nodes) : n.links = [] := by
  have hperm := Stmt.listLinks_collect p
  rw [h] at hperm
  exact List.flatMap_eq_nil_iff.mp (List.nil_perm.mp hperm) n hn

theorem Node.filterMap_source_links (n : Node) :
    n.links.filterMap Link.source? = n.specifier?.toList := by
  unfold Node.links
  cases n.specifier? <;> cases n.isExport <;> rfl

theorem Program.sources_perm_specifiers (p : Program) :
    p.sources.Perm (p.nodes.filterMap Node.specifier?) := by
  have hperm := (Stmt.listLinks_collect p).filterMap Link.source?
  have hnodes : ((Stmt.listNodes p).flatMap Node.links).filterMap Link.source? =
      p.nodes.filterMap Node.specifier? := by
    rw [List.filterMap_flatMap, List.filterMap_eq_flatMap_toList]
    simp only [Node.filterMap_source_links]
    rfl
  rwa [hnodes] at hperm

/-!
# What is left in a factory

No link survives: a `require` call is pointed at an entry of the table of
modules, and imports and exports become statements of other kinds.
-/

theorem Link.none_append {found₁ found₂ : List Link} (h₁ : found₁ = []) (h₂ : found₂ = []) :
    found₁ ++ found₂ = [] := by
  rw [h₁, h₂]
  rfl

theorem Stmt.listLinks_single {s : Stmt} (h : s.links = []) : Stmt.listLinks [s] = [] :=
  Link.none_append h rfl

theorem requiredSource_toFactory (path : String) (callee : Expr) (args : List Expr) :
    requiredSource? (callee.toFactory path) (Expr.listToFactory path args) =
      requiredSource? callee args := by
  cases callee with
  | ident span name =>
    cases args with
    | nil => rfl
    | cons first rest => cases first <;> rfl
  | _ => rfl

theorem requiredSource_moduleEntry (callee : Expr) (id : String) (args : List Expr) :
    requiredSource? callee (moduleEntry id :: args) = none := by
  cases callee <;> rfl

theorem callLinks_linkedArgs (path : String) (callee : Expr) (args : List Expr) :
    callLinks (callee.toFactory path)
      (linkedArgs path callee args (Expr.listToFactory path args)) = [] := by
  unfold callLinks linkedArgs
  cases h : requiredSource? callee args with
  | some raw => simp [requiredSource_moduleEntry]
  | none => simp [requiredSource_toFactory, h]

theorem listLinks_linkedArgs {path : String} {callee : Expr} {args converted : List Expr}
    (h : Expr.listLinks converted = []) :
    Expr.listLinks (linkedArgs path callee args converted) = [] := by
  unfold linkedArgs
  cases requiredSource? callee args with
  | none => exact h
  | some raw =>
    cases converted with
    | nil => rfl
    | cons first rest => exact (List.append_eq_nil_iff.mp h).2

theorem Stmt.listLinks_append (ss ts : List Stmt) :
    Stmt.listLinks (ss ++ ts) = Stmt.listLinks ss ++ Stmt.listLinks ts := by
  induction ss with
  | nil => rfl
  | cons s rest ih => exact (congrArg (s.links ++ ·) ih).trans (List.append_assoc _ _ _).symm

theorem listLinks_sequence {span : Span} {items : List Expr} (h : Expr.listLinks items = []) :
    Stmt.listLinks (Make.sequence span items) = [] := by
  match items, h with
  | [], _ => rfl
  | [_], h => exact h
  | _ :: _ :: _, h => exact (List.append_nil _).trans h

theorem links_oneStatement {span : Span} {body : List Stmt} (h : Stmt.listLinks body = []) :
    (oneStatement span body).links = [] := by
  match body, h with
  | [], _ => rfl
  | [_], h => exact (List.append_nil _).symm.trans h
  | _ :: _ :: _, h => exact h

theorem listLinks_importedVariables (path : String) (span : Span) (source : String)
    (specifiers : List ImportSpecifier) :
    Stmt.listLinks (importedVariables path span source specifiers) = [] := by
  have hdecls : ∀ ordered : List ImportSpecifier,
      Declarator.listLinks (ordered.map (ImportSpecifier.declarator (sourceId path source))) =
        [] := by
    intro ordered
    induction ordered with
    | nil => rfl
    | cons s rest ih =>
      refine Link.none_append ?_ ih
      cases s <;> rfl
  unfold importedVariables
  dsimp only
  split
  · rfl
  · exact Stmt.listLinks_single (hdecls _)

theorem listLinks_exportedNames (path : String) (span : Span) (source : Option String)
    (specifiers : List ExportSpecifier) :
    Stmt.listLinks (exportedNames path span source specifiers) = [] := by
  apply listLinks_sequence
  induction specifiers with
  | nil => rfl
  | cons s rest ih =>
    refine Link.none_append ?_ ih
    cases source <;> rfl

theorem listLinks_exportedVariables (span : Span) (names : List String) :
    Stmt.listLinks (exportedVariables span names) = [] := by
  apply listLinks_sequence
  induction names with
  | nil => rfl
  | cons name rest ih => exact Link.none_append rfl ih

theorem listLinks_exportedDefault (span : Span) {value : Expr} (h : value.links = []) :
    Stmt.listLinks (exportedDefault span value) = [] := by
  unfold exportedDefault
  split
  · split
    · exact Link.none_append h rfl
    · exact Stmt.listLinks_single h
  · exact Link.none_append h rfl
  · exact Stmt.listLinks_single h

namespace Tree

@[simp]
def toFactory (path : String) : Tree → Tree
  | expr e => expr (e.toFactory path)
  | exprs es => exprs (Expr.listToFactory path es)
  | option e => option (Expr.optionToFactory path e)
  | elements es => elements (Expr.elementsToFactory path es)
  | properties ps => properties (Property.listToFactory path ps)
  | property p => property (p.toFactory path)
  | key k => key (k.toFactory path)
  | func f => func (f.toFactory path)
  | params ps => params (Param.listToFactory path ps)
  | param p => param (p.toFactory path)
  | members ms => members (ClassMember.listToFactory path ms)
  | member m => member (m.toFactory path)
  | binding b => binding (b.toFactory path)
  | handler b => handler (Binding.optionToFactory path b)
  | arrayElements es => arrayElements (ArrayElement.listToFactory path es)
  | arrayElement e => arrayElement (e.toFactory path)
  | objectElements es => objectElements (ObjectElement.listToFactory path es)
  | objectElement e => objectElement (e.toFactory path)
  | declarators ds => declarators (Declarator.listToFactory path ds)
  | declarator d => declarator (d.toFactory path)
  | forInit init => forInit (init.toFactory path)
  | cases cs => cases (SwitchCase.listToFactory path cs)
  | case c => case (c.toFactory path)
  | declaration d => declaration (d.toFactory path)
  | stmts body => stmts (Stmt.listToFactory path body)
  | stmt s => stmts (s.toFactory path)

attribute [local simp] Expr.links Expr.listLinks Expr.optionLinks Expr.elementLinks
  Property.listLinks Property.links PropertyKey.links Func.links Param.listLinks Param.links
  ClassMember.listLinks ClassMember.links Binding.links Binding.optionLinks
  ArrayElement.listLinks ArrayElement.links ObjectElement.listLinks ObjectElement.links
  Declarator.listLinks Declarator.links ForInit.links SwitchCase.listLinks SwitchCase.links
  Declaration.links Stmt.listLinks Stmt.links
  Expr.toFactory Expr.listToFactory Expr.optionToFactory Expr.elementsToFactory
  Property.listToFactory Property.toFactory PropertyKey.toFactory Func.toFactory
  Param.listToFactory Param.toFactory ClassMember.listToFactory ClassMember.toFactory
  Binding.toFactory Binding.optionToFactory ArrayElement.listToFactory ArrayElement.toFactory
  ObjectElement.listToFactory ObjectElement.toFactory Declarator.listToFactory
  Declarator.toFactory ForInit.toFactory SwitchCase.listToFactory SwitchCase.toFactory
  Declaration.toFactory Stmt.listToFactory Stmt.toFactory

theorem links_toFactory (path : String) (t : Tree) : (t.toFactory path).links = [] := by
  induction t using Tree.induct with
  | step t ih =>
    cases t with
    | expr e =>
      simp only [parts] at ih
      cases e <;> simp only [ofExpr, List.forall_mem_cons] at ih
      case call callee args =>
        exact Link.none_append (Link.none_append (callLinks_linkedArgs path callee args) ih.1)
          (listLinks_linkedArgs ih.2.1)
      all_goals first
      | rfl
      | exact ih.1
      | exact Link.none_append ih.1 ih.2.1
      | exact Link.none_append (Link.none_append ih.1 ih.2.1) ih.2.2.1
    | stmt s =>
      cases s with
      | exportAll => rfl
      | _ =>
        simp_all [links_oneStatement, listLinks_importedVariables, listLinks_exportedNames,
          listLinks_exportedDefault, listLinks_exportedVariables]
    | stmts l =>
      cases l with
      | nil => rfl
      | cons s rest =>
        simp only [parts, List.forall_mem_cons] at ih
        exact (Stmt.listLinks_append _ _).trans (Link.none_append ih.1 ih.2.1)
    | _ l =>
      cases l <;> simp only [parts, List.forall_mem_cons] at ih <;> first
      | rfl
      | exact ih.1
      | exact Link.none_append ih.1 ih.2.1
      | exact Link.none_append (Link.none_append ih.1 ih.2.1) ih.2.2.1

/-!
# Trees without links

Only links are converted, so a tree without any is its own conversion.
-/

@[simp]
def listed : Tree → Tree
  | stmt s => stmts [s]
  | t => t

theorem toFactory_of_links (path : String) (t : Tree) (h : t.links = []) :
    t.toFactory path = t.listed := by
  induction t using Tree.induct with
  | step t ih =>
    cases t with
    | expr e => cases e <;> simp_all [callLinks, linkedArgs]
    | stmt s => cases s <;> simp_all [oneStatement]
    | _ l => cases l <;> simp_all

end Tree

theorem factory_links (path : String) (hasExports : Bool) {body : List Stmt}
    (h : Stmt.listLinks body = []) : (factory path hasExports body).links = [] := by
  have hbody : Stmt.listLinks (body ++ [.ret .nowhere (some (ident "module"))]) = [] := by
    rw [Stmt.listLinks_append]
    exact Link.none_append h rfl
  exact hbody

theorem Program.listLinks_toFactory (path : String) (p : Program) :
    Stmt.listLinks (p.toFactory path) = [] :=
  Stmt.listLinks_single (factory_links path p.exports (Tree.links_toFactory path (.stmts p)))

theorem Node.no_module_item_of_links {n : Node} (h : n.links = []) :
    n.isImport = false ∧ n.isExport = false ∧ n.specifier? = none := by
  rcases List.append_eq_nil_iff.mp h with ⟨hexport, hspecifier⟩
  have hnone : n.specifier? = none := by simpa using hspecifier
  refine ⟨?_, by simpa using hexport, hnone⟩
  by_contra himport
  unfold Node.isImport at himport
  split at himport
  · exact Option.some_ne_none _ hnone
  · exact himport rfl

/-- A factory holds no import, no export and no `require` call with a literal.
The imports of a program are the modules that its nodes name.  Converting a
factory again wraps it and changes nothing in it. -/
theorem Program.toFactory_complete (path : String) (p : Program) :
    (∀ n ∈ (p.toFactory path).nodes,
      n.isImport = false ∧ n.isExport = false ∧ n.specifier? = none) ∧
    (p.imports path).Perm
      ((p.nodes.filterMap Node.specifier?).map
        (fun raw => ModulePath.resolve (unquote raw) path)) ∧
    ∀ path₂ : String,
      (p.toFactory path).toFactory path₂ =
        [.expr .nowhere (.assign .nowhere .assign
          (.dot .nowhere (.ident .nowhere "moduleFns") .nowhere (ModulePath.id path₂))
          (.function .nowhere ⟨.nowhere, none, false, false, [],
            .decl (.vars .nowhere .var [⟨.nowhere, .ident .nowhere "module",
              some (.object .nowhere [.pair (.ident "exports") (.object .nowhere []),
                .pair (.ident "es6") (.object .nowhere []),
                .pair (.ident "hasES6Exports") (.bool .nowhere false)])⟩]) ::
              p.toFactory path ++ [.ret .nowhere (some (.ident .nowhere "module"))]⟩))] ∧
      (p.toFactory path).imports path₂ = [] := by
  have hlinks := p.listLinks_toFactory path
  refine ⟨?_, p.sources_perm_specifiers.map _, ?_⟩
  · intro n hn
    exact Node.no_module_item_of_links (Program.node_links_of_listLinks_eq_nil hlinks hn)
  · intro path₂
    constructor
    · have hsame := Tree.toFactory_of_links path₂ (.stmts (p.toFactory path)) hlinks
      rw [Program.toFactory, Tree.stmts.inj hsame, Program.exports, hlinks]
      rfl
    · rw [Program.imports, Program.sources, hlinks]
      rfl

end ScriptBundler
