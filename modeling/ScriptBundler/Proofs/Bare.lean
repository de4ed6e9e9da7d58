import ScriptBundler.Printer.Tree
import ScriptBundler.Proofs.Subtrees

/-!
# Trees without spans

A tree says which program was written and its spans say where.  Two trees that
differ only in their spans have the same bare tree, in which every span is the
one of a node that stands nowhere.
-/

namespace ScriptBundler

namespace ImportSpecifier

def bare : ImportSpecifier → ImportSpecifier
  | .default _ name => .default .nowhere name
  | .all _ name => .all .nowhere name
  | .named _ imported name => .named .nowhere imported name

end ImportSpecifier

namespace ExportSpecifier

def bare (s : ExportSpecifier) : ExportSpecifier :=
  ⟨.nowhere, s.name, s.exported⟩

end ExportSpecifier

mutual

def Expr.bare : Expr → Expr
  | .null _ => .null .nowhere
  | .bool _ value => .bool .nowhere value
  | .number _ raw => .number .nowhere raw
  | .string _ raw => .string .nowhere raw
  | .regex _ pattern flags => .regex .nowhere pattern flags
  | .template _ raw => .template .nowhere raw
  | .ident _ name => .ident .nowhere name
  | .this _ => .this .nowhere
  | .super _ => .super .nowhere
  | .array _ elements => .array .nowhere (Expr.elementsBare elements)
  | .object _ properties => .object .nowhere (Property.listBare properties)
  | .function _ value => .function .nowhere value.bare
  | .arrow _ isAsync params body => .arrow .nowhere isAsync (Param.listBare params) body.bare
  | .arrowBlock _ isAsync params body =>
    .arrowBlock .nowhere isAsync (Param.listBare params) (Stmt.listBare body)
  | .class _ name parent members =>
    .class .nowhere name (Expr.optionBare parent) (ClassMember.listBare members)
  | .unary _ op arg => .unary .nowhere op arg.bare
  | .binary _ op left right => .binary .nowhere op left.bare right.bare
  | .assign _ op target value => .assign .nowhere op target.bare value.bare
  | .assignPattern _ target value => .assignPattern .nowhere target.bare value.bare
  | .update _ op leading arg => .update .nowhere op leading arg.bare
  | .conditional _ test yes no => .conditional .nowhere test.bare yes.bare no.bare
  | .sequence _ items => .sequence .nowhere (Expr.listBare items)
  | .paren _ inner => .paren .nowhere inner.bare
  | .dot _ object _ name => .dot .nowhere object.bare .nowhere name
  | .index _ object property => .index .nowhere object.bare property.bare
  | .call _ callee args => .call .nowhere callee.bare (Expr.listBare args)
  | .new _ callee args => .new .nowhere callee.bare (Expr.listBare args)
  | .newBare _ callee => .newBare .nowhere callee.bare
  | .tagged _ tag quasi => .tagged .nowhere tag.bare quasi
  | .spread _ arg => .spread .nowhere arg.bare
  | .yield _ delegate arg => .yield .nowhere delegate (Expr.optionBare arg)
  | .await _ arg => .await .nowhere arg.bare

def Expr.listBare : List Expr → List Expr
  | [] => []
  | e :: rest => e.bare :: Expr.listBare rest

def Expr.elementsBare : List (Option Expr) → List (Option Expr)
  | [] => []
  | e :: rest => Expr.optionBare e :: Expr.elementsBare rest

def Expr.optionBare : Option Expr → Option Expr
  | none => none
  | some e => some e.bare

def Property.listBare : List Property → List Property
  | [] => []
  | p :: rest => p.bare :: Property.listBare rest

def Property.bare : Property → Property
  | .pair key value => .pair key.bare value.bare
  | .shorthand name => .shorthand name
  | .method kind key value => .method kind key.bare value.bare
  | .spread value => .spread value.bare

def PropertyKey.bare : PropertyKey → PropertyKey
  | .ident name => .ident name
  | .string raw => .string raw
  | .number raw => .number raw
  | .computed key => .computed key.bare

def Func.bare : Func → Func
  | ⟨_, name, isAsync, isGenerator, params, body⟩ =>
    ⟨.nowhere, name, isAsync, isGenerator, Param.listBare params, Stmt.listBare body⟩

def Param.listBare : List Param → List Param
  | [] => []
  | p :: rest => p.bare :: Param.listBare rest

def Param.bare : Param → Param
  | .plain _ binding default => .plain .nowhere binding.bare (Expr.optionBare default)
  | .rest _ binding => .rest .nowhere binding.bare

def ClassMember.listBare : List ClassMember → List ClassMember
  | [] => []
  | m :: rest => m.bare :: ClassMember.listBare rest

def ClassMember.bare : ClassMember → ClassMember
  | .method _ kind isStatic key value => .method .nowhere kind isStatic key.bare value.bare
  | .field _ isStatic key value => .field .nowhere isStatic key.bare (Expr.optionBare value)

def Binding.bare : Binding → Binding
  | .ident _ name => .ident .nowhere name
  | .array _ elements => .array .nowhere (ArrayElement.listBare elements)
  | .object _ properties => .object .nowhere (ObjectElement.listBare properties)

def Binding.optionBare : Option Binding → Option Binding
  | none => none
  | some b => some b.bare

def ArrayElement.listBare : List ArrayElement → List ArrayElement
  | [] => []
  | e :: rest => e.bare :: ArrayElement.listBare rest

def ArrayElement.bare : ArrayElement → ArrayElement
  | .hole => .hole
  | .item binding default => .item binding.bare (Expr.optionBare default)
  | .rest binding => .rest binding.bare

def ObjectElement.listBare : List ObjectElement → List ObjectElement
  | [] => []
  | e :: rest => e.bare :: ObjectElement.listBare rest

def ObjectElement.bare : ObjectElement → ObjectElement
  | .shorthand _ name default => .shorthand .nowhere name (Expr.optionBare default)
  | .pair key value default => .pair key.bare value.bare (Expr.optionBare default)
  | .rest _ name => .rest .nowhere name

def Declarator.listBare : List Declarator → List Declarator
  | [] => []
  | d :: rest => d.bare :: Declarator.listBare rest

def Declarator.bare : Declarator → Declarator
  | ⟨_, binding, init⟩ => ⟨.nowhere, binding.bare, Expr.optionBare init⟩

def ForInit.bare : ForInit → ForInit
  | .none => .none
  | .vars kind decls => .vars kind (Declarator.listBare decls)
  | .expr value => .expr value.bare
  | .pattern binding => .pattern binding.bare

def SwitchCase.listBare : List SwitchCase → List SwitchCase
  | [] => []
  | c :: rest => c.bare :: SwitchCase.listBare rest

def SwitchCase.bare : SwitchCase → SwitchCase
  | ⟨_, test, body⟩ => ⟨.nowhere, Expr.optionBare test, Stmt.listBare body⟩

def Declaration.bare : Declaration → Declaration
  | .vars _ kind decls => .vars .nowhere kind (Declarator.listBare decls)
  | .function _ value => .function .nowhere value.bare
  | .class _ name parent members =>
    .class .nowhere name (Expr.optionBare parent) (ClassMember.listBare members)

def Stmt.listBare : List Stmt → List Stmt
  | [] => []
  | s :: rest => s.bare :: Stmt.listBare rest

def Stmt.bare : Stmt → Stmt
  | .decl value => .decl value.bare
  | .block _ body => .block .nowhere (Stmt.listBare body)
  | .ifThen _ test yes => .ifThen .nowhere test.bare yes.bare
  | .ifElse _ test yes no => .ifElse .nowhere test.bare yes.bare no.bare
  | .switch _ subject cases => .switch .nowhere subject.bare (SwitchCase.listBare cases)
  | .forLoop _ init test update body =>
    .forLoop .nowhere init.bare (Expr.optionBare test) (Expr.optionBare update) body.bare
  | .forIn _ left right body => .forIn .nowhere left.bare right.bare body.bare
  | .forOf _ left right body => .forOf .nowhere left.bare right.bare body.bare
  | .whileLoop _ test body => .whileLoop .nowhere test.bare body.bare
  | .doWhile _ body test => .doWhile .nowhere body.bare test.bare
  | .breakTo _ label => .breakTo .nowhere label
  | .continueTo _ label => .continueTo .nowhere label
  | .ret _ arg => .ret .nowhere (Expr.optionBare arg)
  | .throw _ arg => .throw .nowhere arg.bare
  | .tryCatch _ body _ param handler =>
    .tryCatch .nowhere (Stmt.listBare body) .nowhere (Binding.optionBare param)
      (Stmt.listBare handler)
  | .tryFinally _ body finalizer =>
    .tryFinally .nowhere (Stmt.listBare body) (Stmt.listBare finalizer)
  | .tryCatchFinally _ body _ param handler finalizer =>
    .tryCatchFinally .nowhere (Stmt.listBare body) .nowhere (Binding.optionBare param)
      (Stmt.listBare handler) (Stmt.listBare finalizer)
  | .labeled _ label body => .labeled .nowhere label body.bare
  | .expr _ value => .expr .nowhere value.bare
  | .empty _ => .empty .nowhere
  | .debugger _ => .debugger .nowhere
  | .importFrom _ source specifiers =>
    .importFrom .nowhere source (specifiers.map ImportSpecifier.bare)
  | .exportNamed _ source specifiers =>
    .exportNamed .nowhere source (specifiers.map ExportSpecifier.bare)
  | .exportDefault _ value => .exportDefault .nowhere value.bare
  | .exportDecl _ decl => .exportDecl .nowhere decl.bare
  | .exportAll _ source => .exportAll .nowhere source

end

/-- The program without spans. -/
def Program.bare (p : Program) : Program :=
  Stmt.listBare p

theorem Expr.listBare_eq_map (es : List Expr) : Expr.listBare es = es.map Expr.bare :=
  eq_map_of_cons rfl (fun _ _ => rfl) es

theorem Expr.elementsBare_eq_map (es : List (Option Expr)) :
    Expr.elementsBare es = es.map Expr.optionBare :=
  eq_map_of_cons rfl (fun _ _ => rfl) es

theorem Property.listBare_eq_map (ps : List Property) :
    Property.listBare ps = ps.map Property.bare :=
  eq_map_of_cons rfl (fun _ _ => rfl) ps

theorem Param.listBare_eq_map (ps : List Param) : Param.listBare ps = ps.map Param.bare :=
  eq_map_of_cons rfl (fun _ _ => rfl) ps

theorem ClassMember.listBare_eq_map (ms : List ClassMember) :
    ClassMember.listBare ms = ms.map ClassMember.bare :=
  eq_map_of_cons rfl (fun _ _ => rfl) ms

theorem ArrayElement.listBare_eq_map (es : List ArrayElement) :
    ArrayElement.listBare es = es.map ArrayElement.bare :=
  eq_map_of_cons rfl (fun _ _ => rfl) es

theorem ObjectElement.listBare_eq_map (es : List ObjectElement) :
    ObjectElement.listBare es = es.map ObjectElement.bare :=
  eq_map_of_cons rfl (fun _ _ => rfl) es

theorem Declarator.listBare_eq_map (ds : List Declarator) :
    Declarator.listBare ds = ds.map Declarator.bare :=
  eq_map_of_cons rfl (fun _ _ => rfl) ds

theorem SwitchCase.listBare_eq_map (cs : List SwitchCase) :
    SwitchCase.listBare cs = cs.map SwitchCase.bare :=
  eq_map_of_cons rfl (fun _ _ => rfl) cs

theorem Stmt.listBare_eq_map (body : List Stmt) : Stmt.listBare body = body.map Stmt.bare :=
  eq_map_of_cons rfl (fun _ _ => rfl) body

/-!
# Printing does not look at spans

A node is printed by its texts, so a tree has the pieces of its bare tree.
-/

theorem Expr.level_bare (e : Expr) : e.bare.level = e.level := by
  cases e <;> rfl

theorem Expr.takesPoint_bare (e : Expr) : e.bare.takesPoint = e.takesPoint := by
  cases e <;> rfl

theorem Expr.declares_bare (e : Expr) : e.bare.declares = e.declares := by
  cases e <;> rfl

theorem ArrayElement.isHole_bare (e : ArrayElement) : e.bare.isHole = e.isHole := by
  cases e <;> rfl

theorem Expr.endsWithHole_bare (es : List (Option Expr)) :
    (Expr.elementsBare es).getLast?.any Option.isNone = es.getLast?.any Option.isNone := by
  rw [Expr.elementsBare_eq_map, List.getLast?_map]
  cases es.getLast? with
  | none => rfl
  | some e => cases e <;> rfl

theorem ArrayElement.endsWithHole_bare (es : List ArrayElement) :
    (ArrayElement.listBare es).getLast?.any ArrayElement.isHole =
      es.getLast?.any ArrayElement.isHole := by
  rw [ArrayElement.listBare_eq_map, List.getLast?_map]
  cases es.getLast? with
  | none => rfl
  | some e => exact ArrayElement.isHole_bare e

theorem ImportSpecifier.clausePieces_bare (specifiers : List ImportSpecifier) :
    ImportSpecifier.clausePieces (specifiers.map ImportSpecifier.bare) =
      ImportSpecifier.clausePieces specifiers := by
  have hlead : ImportSpecifier.leadPieces? ∘ ImportSpecifier.bare =
      ImportSpecifier.leadPieces? := by
    funext s
    cases s <;> rfl
  have hnamed : ImportSpecifier.namedPieces? ∘ ImportSpecifier.bare =
      ImportSpecifier.namedPieces? := by
    funext s
    cases s <;> rfl
  unfold ImportSpecifier.clausePieces
  rw [List.filterMap_map, List.filterMap_map, hlead, hnamed]

theorem ExportSpecifier.pieces_comp_bare :
    ExportSpecifier.pieces ∘ ExportSpecifier.bare = ExportSpecifier.pieces :=
  rfl

@[simp]
def Tree.PrintsBare : Tree → Prop
  | expr e => e.bare.pieces = e.pieces
  | exprs es => Expr.listPieces (Expr.listBare es) = Expr.listPieces es
  | elements es => Expr.elementPieces (Expr.elementsBare es) = Expr.elementPieces es
  | properties ps => Property.listPieces (Property.listBare ps) = Property.listPieces ps
  | property p => p.bare.pieces = p.pieces
  | key k => k.bare.pieces = k.pieces
  | params ps => Param.listPieces (Param.listBare ps) = Param.listPieces ps
  | param p => p.bare.pieces = p.pieces
  | members ms => ClassMember.listPieces (ClassMember.listBare ms) = ClassMember.listPieces ms
  | member m => m.bare.pieces = m.pieces
  | binding b => b.bare.pieces = b.pieces
  | arrayElements es => ArrayElement.listPieces (ArrayElement.listBare es) = ArrayElement.listPieces es
  | arrayElement e => e.bare.pieces = e.pieces
  | objectElements es =>
    ObjectElement.listPieces (ObjectElement.listBare es) = ObjectElement.listPieces es
  | objectElement e => e.bare.pieces = e.pieces
  | declarators ds => Declarator.listPieces (Declarator.listBare ds) = Declarator.listPieces ds
  | declarator d => d.bare.pieces = d.pieces
  | forInit init => init.bare.pieces = init.pieces
  | cases cs => SwitchCase.listPieces (SwitchCase.listBare cs) = SwitchCase.listPieces cs
  | case c => c.bare.pieces = c.pieces
  | declaration d => d.bare.pieces = d.pieces
  | stmts body => Stmt.listPieces (Stmt.listBare body) = Stmt.listPieces body
  | option e => ∀ x ∈ e, x.bare.pieces = x.pieces
  | handler b => ∀ x ∈ b, x.bare.pieces = x.pieces
  | func f => f.bare.pieces = f.pieces ∧ ∀ key, f.bare.methodPieces key = f.methodPieces key
  | stmt s => s.bare.pieces = s.pieces

theorem Expr.fit_bare {e : Expr} (h : e.bare.pieces = e.pieces) (required : Nat) :
    e.bare.fit required e.bare.pieces = e.fit required e.pieces := by
  rw [Expr.fit, Expr.fit, Expr.level_bare, h]

section
variable {e : Option Expr} (h : ∀ x ∈ e, x.bare.pieces = x.pieces)
include h

theorem Expr.optionPieces_bare (required : Nat) :
    Expr.optionPieces required (Expr.optionBare e) = Expr.optionPieces required e := by
  cases e with
  | none => rfl
  | some e => exact Expr.fit_bare (h e rfl) required

theorem Expr.valuePieces_bare : Expr.valuePieces (Expr.optionBare e) = Expr.valuePieces e := by
  cases e with
  | none => rfl
  | some e => exact congrArg (Piece.put "=" ++ ·) (Expr.fit_bare (h e rfl) _)

theorem Expr.parentPieces_bare : Expr.parentPieces (Expr.optionBare e) = Expr.parentPieces e := by
  cases e with
  | none => rfl
  | some e => exact congrArg (Piece.put "extends" ++ ·) (Expr.fit_bare (h e rfl) _)

end

theorem Expr.isSome_optionBare (e : Option Expr) : (Expr.optionBare e).isSome = e.isSome := by
  cases e <;> rfl

theorem Binding.handlerPieces_bare {b : Option Binding} (h : ∀ x ∈ b, x.bare.pieces = x.pieces) :
    Binding.handlerPieces (Binding.optionBare b) = Binding.handlerPieces b := by
  cases b with
  | none => rfl
  | some b => exact congrArg Piece.parens (h b rfl)

section

attribute [local simp] Expr.bare Expr.listBare Expr.elementsBare Property.listBare Property.bare
  PropertyKey.bare Func.bare Param.listBare Param.bare ClassMember.listBare ClassMember.bare
  Binding.bare ArrayElement.listBare ArrayElement.bare ObjectElement.listBare ObjectElement.bare
  Declarator.listBare Declarator.bare ForInit.bare SwitchCase.listBare SwitchCase.bare
  Declaration.bare Stmt.listBare Stmt.bare
  Expr.pieces Expr.listPieces Expr.elementPieces Property.listPieces Property.pieces
  PropertyKey.pieces Func.pieces Func.methodPieces Param.listPieces Param.pieces
  ClassMember.listPieces ClassMember.pieces Binding.pieces ArrayElement.listPieces
  ArrayElement.pieces ObjectElement.listPieces ObjectElement.pieces Declarator.listPieces
  Declarator.pieces ForInit.pieces SwitchCase.listPieces SwitchCase.pieces Declaration.pieces
  Stmt.listPieces Stmt.pieces
  Expr.fit Expr.level_bare Expr.takesPoint_bare Expr.declares_bare Expr.endsWithHole_bare
  ArrayElement.endsWithHole_bare Expr.optionPieces_bare Expr.valuePieces_bare
  Expr.parentPieces_bare Expr.isSome_optionBare Binding.handlerPieces_bare
  ImportSpecifier.clausePieces_bare ExportSpecifier.pieces_comp_bare

theorem Tree.printsBare (t : Tree) : t.PrintsBare := by
  induction t using Tree.induct with
  | step t ih =>
    cases t with
    | expr e => cases e <;> simp_all
    | stmt s => cases s <;> simp_all
    | _ l => cases l <;> simp_all

end

theorem Program.print_eq_of_bare {p q : Program} (h : p.bare = q.bare) : p.print = q.print := by
  have hp : Piece.render (Stmt.listPieces p.bare) = p.print :=
    congrArg Piece.render (Tree.printsBare (.stmts p))
  have hq : Piece.render (Stmt.listPieces q.bare) = q.print :=
    congrArg Piece.render (Tree.printsBare (.stmts q))
  rw [← hp, h, hq]

section
variable {e target value object : Expr} {sp sp₁ : Span} {op : AssignOp} {name : String}

theorem Expr.assign_of_bare (h : e.bare = .assign sp op target value) :
    ∃ sp' target' value', e = .assign sp' op target' value' ∧ target'.bare = target ∧
      value'.bare = value := by
  cases e <;> cases h
  exact ⟨_, _, _, rfl, rfl, rfl⟩

theorem Expr.dot_of_bare (h : e.bare = .dot sp object sp₁ name) :
    ∃ sp' object' sp₁', e = .dot sp' object' sp₁' name ∧ object'.bare = object := by
  cases e <;> cases h
  exact ⟨_, _, _, rfl, rfl⟩

theorem Expr.ident_of_bare (h : e.bare = .ident sp name) : ∃ sp', e = .ident sp' name := by
  cases e <;> cases h
  exact ⟨_, rfl⟩

theorem Expr.function_of_bare {f : Func} (h : e.bare = .function sp f) :
    ∃ sp' f', e = .function sp' f' := by
  cases e <;> cases h
  exact ⟨_, _, rfl⟩

theorem Expr.template_of_bare {raw : String} (h : e.bare = .template sp raw) :
    ∃ sp', e = .template sp' raw := by
  cases e <;> cases h
  exact ⟨_, rfl⟩

theorem Stmt.expr_of_bare {s : Stmt} (h : s.bare = .expr sp value) :
    ∃ sp' value', s = .expr sp' value' ∧ value'.bare = value := by
  cases s <;> cases h
  exact ⟨_, _, rfl, rfl⟩

theorem Stmt.single_of_listBare {body : List Stmt} {s : Stmt} (h : Stmt.listBare body = [s]) :
    ∃ s', body = [s'] ∧ s'.bare = s := by
  match body, h with
  | [s'], h => exact ⟨s', rfl, (List.cons.inj h).1⟩
  | [], h => cases h
  | _ :: _ :: _, h => cases h

end

end ScriptBundler
