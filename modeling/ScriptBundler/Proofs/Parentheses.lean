import Mathlib.Data.List.TakeWhile
import ScriptBundler.Proofs.FactoryForm

/-!
# Parentheses that printing adds

A tree of operators can be put together without regard to how tightly its parts
hold together.  Printing adds the parentheses that its positions ask for.  The
same tree with these parentheses as nodes of its own is printed as the same
text, and it is well-formed: so the text is parsed to this tree, which differs
from the first one only in its parentheses.
-/

namespace ScriptBundler

open Grammar

/-!
# Trees of operators

Operators may stand under each other whatever their levels are.  Grouping puts in
the parentheses that printing adds.
-/

def isWord (name : String) : Bool :=
  match name.toList with
  | [] => false
  | c :: rest => Lexeme.isWordStart c && rest.all Lexeme.isWordPart

def isIdentifier (name : String) : Bool :=
  isWord name && (Keyword.ofText? name).isNone

namespace Expr

def isPlace : Expr → Bool
  | .ident _ _ | .dot _ _ _ _ | .index _ _ _ => true
  | _ => false

def isCall : Expr → Bool
  | .call _ _ _ => true
  | _ => false

end Expr

/-- Trees of operators on identifiers.  Any operator may stand under any other
one, whatever their levels are. -/
inductive Operational : Expr → Prop
  | ident {sp : Span} {name : String} : isIdentifier name = true → Operational (.ident sp name)
  | unary {sp : Span} {op : UnaryOp} {arg : Expr} : Operational arg → Operational (.unary sp op arg)
  | binary {sp : Span} {op : BinaryOp} {left right : Expr} : Operational left →
      Operational right → Operational (.binary sp op left right)
  | conditional {sp : Span} {test yes no : Expr} : Operational test → Operational yes →
      Operational no → Operational (.conditional sp test yes no)
  | sequence {sp : Span} {items : List Expr} : 2 ≤ items.length →
      (∀ e ∈ items, Operational e) → Operational (.sequence sp items)
  | assign {sp : Span} {op : AssignOp} {target value : Expr} : target.isPlace = true →
      Operational target → Operational value → Operational (.assign sp op target value)
  | leading {sp : Span} {op : UpdateOp} {arg : Expr} : Operational arg →
      Operational (.update sp op true arg)
  | trailing {sp : Span} {op : UpdateOp} {arg : Expr} : (arg.isPlace || arg.isCall) = true →
      Operational arg → Operational (.update sp op false arg)
  | dot {sp sp' : Span} {object : Expr} {name : String} : Operational object →
      isWord name = true → Operational (.dot sp object sp' name)
  | index {sp : Span} {object property : Expr} : Operational object → Operational property →
      Operational (.index sp object property)
  | call {sp : Span} {callee : Expr} {args : List Expr} : Operational callee →
      (∀ e ∈ args, Operational e) → Operational (.call sp callee args)
  | paren {sp : Span} {inner : Expr} : Operational inner → Operational (.paren sp inner)

mutual

def Expr.unparen : Expr → Expr
  | .paren _ inner => inner.unparen
  | .unary sp op arg => .unary sp op arg.unparen
  | .binary sp op left right => .binary sp op left.unparen right.unparen
  | .assign sp op target value => .assign sp op target.unparen value.unparen
  | .update sp op leading arg => .update sp op leading arg.unparen
  | .conditional sp test yes no => .conditional sp test.unparen yes.unparen no.unparen
  | .sequence sp items => .sequence sp (Expr.listUnparen items)
  | .dot sp base sp' name => .dot sp base.unparen sp' name
  | .index sp base property => .index sp base.unparen property.unparen
  | .call sp callee args => .call sp callee.unparen (Expr.listUnparen args)
  | e => e

def Expr.listUnparen : List Expr → List Expr
  | [] => []
  | e :: rest => e.unparen :: Expr.listUnparen rest

end

/-- An expression at a position that asks for a level, in parentheses of its own
if it is below that level. -/
def Expr.enclose (e : Expr) (required : Nat) (own : Expr) : Expr :=
  if e.level < required then .paren .nowhere own else own

mutual

/-- A tree of operators with the parentheses that are printed in it. -/
def Expr.grouped : Expr → Expr
  | .unary sp op arg => .unary sp op (arg.enclose Level.unary arg.grouped)
  | .binary sp op left right =>
    .binary sp op (left.enclose op.leftLevel left.grouped)
      (right.enclose op.rightLevel right.grouped)
  | .assign sp op target value =>
    .assign sp op (target.enclose Level.updated target.grouped)
      (value.enclose Level.assignment value.grouped)
  | .update sp op true arg => .update sp op true (arg.enclose Level.unary arg.grouped)
  | .update sp op false arg => .update sp op false (arg.enclose Level.updated arg.grouped)
  | .conditional sp test yes no =>
    .conditional sp (test.enclose (Level.conditional + 1) test.grouped)
      (yes.enclose Level.assignment yes.grouped) (no.enclose Level.assignment no.grouped)
  | .sequence sp items => .sequence sp (Expr.listGrouped items)
  | .paren sp inner => .paren sp inner.grouped
  | .dot sp base sp' name => .dot sp (base.enclose Level.call base.grouped) sp' name
  | .index sp base property =>
    .index sp (base.enclose Level.call base.grouped) property.grouped
  | .call sp callee args =>
    .call sp (callee.enclose Level.call callee.grouped) (Expr.listGrouped args)
  | e => e

def Expr.listGrouped : List Expr → List Expr
  | [] => []
  | e :: rest => e.enclose Level.assignment e.grouped :: Expr.listGrouped rest

end

/-!
# Printing does not tell them apart

Parentheses of the tree are printed like those that the printer adds.
-/

section
variable {e : Expr} {required : Nat}

theorem Expr.level_grouped (e : Expr) : e.grouped.level = e.level := by
  cases e with
  | update sp op leading arg => cases leading <;> rfl
  | _ => rfl

theorem Expr.takesPoint_grouped (e : Expr) : e.grouped.takesPoint = e.takesPoint := by
  cases e with
  | update sp op leading arg => cases leading <;> rfl
  | _ => rfl

theorem Expr.not_takesPoint_of_lt_closed (h : e.level < Level.closed) : e.takesPoint = false := by
  cases e with
  | number sp raw => exact absurd h (Nat.lt_irrefl _)
  | _ => rfl

theorem Expr.enclose_of_lt (h : e.level < required) (own : Expr) :
    e.enclose required own = .paren .nowhere own :=
  if_pos h

theorem Expr.enclose_of_le (h : required ≤ e.level) (own : Expr) : e.enclose required own = own :=
  if_neg (Nat.not_lt.mpr h)

section
variable (hrequired : required ≤ Level.closed)
include hrequired

theorem Expr.le_level_enclose : required ≤ (e.enclose required e.grouped).level := by
  rcases Nat.lt_or_ge e.level required with hlt | hge
  · rw [enclose_of_lt hlt]
    exact hrequired
  · rw [enclose_of_le hge, level_grouped]
    exact hge

theorem Expr.takesPoint_enclose : (e.enclose required e.grouped).takesPoint = e.takesPoint := by
  rcases Nat.lt_or_ge e.level required with hlt | hge
  · rw [enclose_of_lt hlt, not_takesPoint_of_lt_closed (Nat.lt_of_lt_of_le hlt hrequired)]
    rfl
  · rw [enclose_of_le hge, takesPoint_grouped]

theorem Expr.fit_enclose (hpieces : e.grouped.pieces = e.pieces) :
    (e.enclose required e.grouped).fit required (e.enclose required e.grouped).pieces =
      e.fit required e.pieces := by
  rw [fit_of_le (le_level_enclose hrequired)]
  rcases Nat.lt_or_ge e.level required with hlt | hge
  · rw [enclose_of_lt hlt, fit, if_pos hlt, ← hpieces]
    rfl
  · rw [enclose_of_le hge, fit_of_le hge, hpieces]

end

end

theorem BinaryOp.leftLevel_le_closed (op : BinaryOp) : op.leftLevel ≤ Level.closed :=
  Nat.le_trans (leftLevel_le_unary op) (by decide)

theorem BinaryOp.rightLevel_le_closed (op : BinaryOp) : op.rightLevel ≤ Level.closed :=
  Nat.le_trans (rightLevel_le_unary op) (by decide)

mutual

theorem Expr.pieces_grouped (e : Expr) : e.grouped.pieces = e.pieces := by
  cases e with
  | unary _ _ a =>
    simp only [grouped, pieces]
    rw [fit_enclose (by decide) a.pieces_grouped]
  | binary _ op a b =>
    simp only [grouped, pieces]
    rw [fit_enclose op.leftLevel_le_closed a.pieces_grouped,
      fit_enclose op.rightLevel_le_closed b.pieces_grouped]
  | assign _ _ a b =>
    simp only [grouped, pieces]
    rw [fit_enclose (by decide) a.pieces_grouped, fit_enclose (by decide) b.pieces_grouped]
  | update _ _ leading a =>
    cases leading <;> simp only [grouped, pieces, Bool.false_eq_true, if_true, if_false] <;>
      rw [fit_enclose (by decide) a.pieces_grouped]
  | conditional _ a b c =>
    simp only [grouped, pieces]
    rw [fit_enclose (by decide) a.pieces_grouped, fit_enclose (by decide) b.pieces_grouped,
      fit_enclose (by decide) c.pieces_grouped]
  | sequence _ es =>
    simp only [grouped, pieces]
    rw [Expr.listPieces_grouped es]
  | paren _ a =>
    simp only [grouped, pieces]
    rw [a.pieces_grouped]
  | dot _ a =>
    simp only [grouped, pieces]
    rw [fit_enclose (by decide) a.pieces_grouped, takesPoint_enclose (by decide)]
  | index _ a b =>
    simp only [grouped, pieces]
    rw [fit_enclose (by decide) a.pieces_grouped, b.pieces_grouped]
  | call _ a es =>
    simp only [grouped, pieces]
    rw [fit_enclose (by decide) a.pieces_grouped, Expr.listPieces_grouped es]
  | _ => rfl

theorem Expr.listPieces_grouped : (es : List Expr) →
    Expr.listPieces (Expr.listGrouped es) = Expr.listPieces es
  | [] => rfl
  | e :: rest => by
    simp only [Expr.listGrouped, Expr.listPieces]
    rw [fit_enclose (by decide) e.pieces_grouped, Expr.listPieces_grouped rest]

end

theorem Expr.unparen_enclose (e own : Expr) (required : Nat) :
    (e.enclose required own).unparen = own.unparen := by
  unfold enclose
  split <;> rfl

mutual

/-- The parentheses that are printed are the only difference. -/
theorem Expr.unparen_grouped (e : Expr) : e.grouped.unparen = e.unparen := by
  cases e with
  | unary _ _ a | paren _ a | dot _ a =>
    simp only [grouped, unparen, unparen_enclose, a.unparen_grouped]
  | update _ _ leading a =>
    cases leading <;> simp only [grouped, unparen, unparen_enclose, a.unparen_grouped]
  | binary _ _ a b | assign _ _ a b | index _ a b =>
    simp only [grouped, unparen, unparen_enclose, a.unparen_grouped, b.unparen_grouped]
  | conditional _ a b c =>
    simp only [grouped, unparen, unparen_enclose, a.unparen_grouped, b.unparen_grouped,
      c.unparen_grouped]
  | sequence _ es => simp only [grouped, unparen, Expr.listUnparen_grouped es]
  | call _ a es =>
    simp only [grouped, unparen, unparen_enclose, a.unparen_grouped, Expr.listUnparen_grouped es]
  | _ => rfl

theorem Expr.listUnparen_grouped : (es : List Expr) →
    Expr.listUnparen (Expr.listGrouped es) = Expr.listUnparen es
  | [] => rfl
  | e :: rest => by
    simp only [Expr.listGrouped, Expr.listUnparen, unparen_enclose, e.unparen_grouped,
      Expr.listUnparen_grouped rest]

end

mutual

theorem Expr.unparen_bare (e : Expr) : e.bare.unparen = e.unparen.bare := by
  cases e with
  | unary _ _ a | paren _ a | dot _ a | update _ _ _ a =>
    simp only [bare, unparen, a.unparen_bare]
  | binary _ _ a b | assign _ _ a b | index _ a b =>
    simp only [bare, unparen, a.unparen_bare, b.unparen_bare]
  | conditional _ a b c =>
    simp only [bare, unparen, a.unparen_bare, b.unparen_bare, c.unparen_bare]
  | sequence _ es => simp only [bare, unparen, Expr.listUnparen_bare es]
  | call _ a es => simp only [bare, unparen, a.unparen_bare, Expr.listUnparen_bare es]
  | _ => rfl

theorem Expr.listUnparen_bare : (es : List Expr) →
    Expr.listUnparen (Expr.listBare es) = Expr.listBare (Expr.listUnparen es)
  | [] => rfl
  | e :: rest => by
    simp only [Expr.listBare, Expr.listUnparen, e.unparen_bare, Expr.listUnparen_bare rest]

end

theorem worded_of_isWord {name : String} (h : isWord name = true) :
    Worded (Lexeme.wordKind name) name := by
  unfold isWord at h
  split at h
  · cases h
  · rename_i c rest htext
    rw [Bool.and_eq_true] at h
    have hrun : Lexeme.run Lexeme.isWordPart rest = rest.length := by
      rw [Lexeme.run, List.takeWhile_eq_self_iff.mpr (List.all_eq_true.mp h.2)]
    have hname : String.ofList (c :: rest) = name := by
      rw [← htext, String.ofList_toList]
    rw [Worded, htext, Lexeme.lexemes, Lexeme.classify_word h.1, hrun, List.take_length,
      List.drop_length, Lexeme.lexemes, hname]

theorem isName_of_isWord {name : String} (h : isWord name = true) : IsName name := by
  rcases Lexeme.wordKind_cases name with hk | ⟨word, hk⟩
  · exact ⟨_, by rw [hk]; rfl, worded_of_isWord h⟩
  · exact ⟨_, by rw [hk]; rfl, worded_of_isWord h⟩

theorem worded_of_isIdentifier {name : String} (h : isIdentifier name = true) :
    Worded .identifier name := by
  rw [isIdentifier, Bool.and_eq_true, Option.isNone_iff_eq_none] at h
  have hkind : Lexeme.wordKind name = .identifier := by
    rw [Lexeme.wordKind, h.2]
  exact hkind ▸ worded_of_isWord h.1

theorem isVariable_of_isIdentifier {name : String} (h : isIdentifier name = true) :
    IsVariable name :=
  ⟨.identifier, rfl, worded_of_isIdentifier h⟩

theorem BinaryOp.exists_infixOp? (op : BinaryOp) : ∃ k, infixOp? false k = some op := by
  cases op with
  | or => exact ⟨.punct .pipePipe, rfl⟩
  | and => exact ⟨.punct .ampAmp, rfl⟩
  | bitOr => exact ⟨.punct .pipe, rfl⟩
  | bitXor => exact ⟨.punct .caret, rfl⟩
  | bitAnd => exact ⟨.punct .amp, rfl⟩
  | eq => exact ⟨.punct .eqEq, rfl⟩
  | notEq => exact ⟨.punct .bangEq, rfl⟩
  | strictEq => exact ⟨.punct .eqEqEq, rfl⟩
  | strictNotEq => exact ⟨.punct .bangEqEq, rfl⟩
  | lt => exact ⟨.punct .lt, rfl⟩
  | ltEq => exact ⟨.punct .ltEq, rfl⟩
  | gt => exact ⟨.punct .gt, rfl⟩
  | gtEq => exact ⟨.punct .gtEq, rfl⟩
  | inside => exact ⟨.keyword .kwIn, rfl⟩
  | instanceof => exact ⟨.keyword .kwInstanceof, rfl⟩
  | shl => exact ⟨.punct .ltLt, rfl⟩
  | shr => exact ⟨.punct .gtGt, rfl⟩
  | uShr => exact ⟨.punct .gtGtGt, rfl⟩
  | add => exact ⟨.punct .plus, rfl⟩
  | sub => exact ⟨.punct .minus, rfl⟩
  | mul => exact ⟨.punct .star, rfl⟩
  | div => exact ⟨.punct .slash, rfl⟩
  | mod => exact ⟨.punct .percent, rfl⟩
  | pow => exact ⟨.punct .starStar, rfl⟩

def FormedAnywhere (e : Expr) : Prop :=
  ∀ cx : Context, cx.noIn = false → Formed .script (.expr cx e)

section
variable {e : Expr} {required : Nat}

theorem FormedAnywhere.enclose {own : Expr} (h : FormedAnywhere own) :
    FormedAnywhere (e.enclose required own) := by
  intro cx hin
  unfold Expr.enclose
  split
  · exact .paren (h cx.allowIn rfl)
  · exact h cx hin

theorem Operational.isObject_enclose (h : Operational e) :
    IsObject (e.enclose Level.call e.grouped) := by
  rcases Nat.lt_or_ge e.level Level.call with hlt | hge
  · rw [Expr.enclose_of_lt hlt]
    exact ⟨rfl, rfl⟩
  · rw [Expr.enclose_of_le hge]
    cases h with
    | binary =>
      rename_i op _ _ _ _
      have hbounds := BinaryOp.level_bounds op
      have hge : 18 ≤ op.level := hge
      omega
    | unary | conditional | sequence | assign | leading | trailing =>
      exact absurd hge (by simp only [Expr.level]; decide)
    | ident | dot | index | call | paren => exact ⟨rfl, rfl⟩

theorem Operational.exprLead_grouped (h : Operational e) : exprLead e.grouped = .other := by
  have henclose : ∀ {e : Expr} {required : Nat}, exprLead e.grouped = .other →
      exprLead (e.enclose required e.grouped) = .other := by
    intro e required h
    unfold Expr.enclose
    split
    · rfl
    · exact h
  induction h with
  | ident | unary | leading | paren => rfl
  | binary _ _ ih _ | conditional _ _ _ ih _ _ | assign _ _ _ ih _ | trailing _ _ ih
  | dot _ _ ih | index _ _ ih _ | call _ _ ih _ => exact henclose ih
  | sequence hlength _ ih =>
    rename_i items _
    cases items with
    | nil => cases hlength
    | cons first others => exact henclose (ih first (List.mem_cons_self ..))

theorem Expr.listGrouped_eq_map (es : List Expr) :
    Expr.listGrouped es = es.map fun e => e.enclose Level.assignment e.grouped := by
  induction es with
  | nil => rfl
  | cons e es ih => rw [Expr.listGrouped, ih, List.map_cons]

theorem formed_args {cx : Context} {es : List Expr} (hin : cx.noIn = false)
    (h : ∀ e ∈ es, FormedAnywhere e.grouped) :
    Formed .script (.items cx .arg (Expr.listGrouped es)) := by
  induction es with
  | nil => exact .noItems
  | cons e es ih =>
    have hfirst : FormedAnywhere (e.enclose Level.assignment e.grouped) :=
      (h e (List.mem_cons_self ..)).enclose
    have hothers : Formed .script (.items cx .arg (Expr.listGrouped es)) :=
      ih fun e he => h e (List.mem_cons_of_mem _ he)
    exact .moreItems (.plainArg (hfirst cx hin) (Expr.le_level_enclose (by decide))) hothers

theorem formed_items {cx : Context} {sp : Span} {items : List Expr} (hin : cx.noIn = false)
    (hlength : 2 ≤ items.length) (h : ∀ e ∈ items, FormedAnywhere e.grouped) :
    Formed .script (.expr cx (.sequence sp (Expr.listGrouped items))) := by
  have hitem : ∀ e ∈ items, Formed .script (.expr cx (e.enclose Level.assignment e.grouped)) ∧
      Level.assignment ≤ (e.enclose Level.assignment e.grouped).level := by
    intro e he
    exact ⟨(h e he).enclose cx hin, Expr.le_level_enclose (by decide)⟩
  match items, hlength, hitem with
  | first :: second :: others, _, hitem =>
    have hfirst := hitem first (List.mem_cons_self ..)
    refine .sequence hfirst.1 hfirst.2 ?_
    rw [Expr.listGrouped_eq_map]
    apply formed_others
    · exact List.cons_ne_nil _ _
    · rw [List.forall_mem_map]
      intro e he
      exact hitem e (List.mem_cons_of_mem _ he)

/-- A tree of operators is well-formed with the parentheses that are printed. -/
theorem Operational.formed_grouped (h : Operational e) : FormedAnywhere e.grouped := by
  induction h with
  | ident hname => exact fun cx _ => .ident (isVariable_of_isIdentifier hname)
  | unary _ ih =>
    intro cx hin
    exact .unary (ih.enclose cx hin) (Expr.le_level_enclose (by decide))
  | @binary _ op _ _ _ _ ihLeft ihRight =>
    intro cx hin
    rcases op.exists_infixOp? with ⟨k, hk⟩
    exact .binary (ihLeft.enclose cx hin) (Expr.le_level_enclose op.leftLevel_le_closed)
      (hin ▸ hk) (ihRight.enclose cx hin) (Expr.le_level_enclose op.rightLevel_le_closed)
  | conditional _ _ _ ihTest ihYes ihNo =>
    intro cx hin
    exact .conditional (ihTest.enclose cx hin) (Expr.le_level_enclose (by decide))
      (ihYes.enclose cx.allowIn rfl) (Expr.le_level_enclose (by decide))
      (ihNo.enclose cx hin) (Expr.le_level_enclose (by decide))
  | sequence hlength _ ih => exact fun cx hin => formed_items hin hlength ih
  | @assign _ _ target _ hplace _ _ ihTarget ihValue =>
    intro cx hin
    have hassignable : (target.enclose Level.updated target.grouped).isAssignable = true := by
      cases target with
      | ident | dot | index => rfl
      | _ => cases hplace
    exact .assign (ihTarget.enclose cx hin) hassignable (ihValue.enclose cx hin)
      (Expr.le_level_enclose (by decide))
  | leading _ ih =>
    intro cx hin
    exact .leading (ih.enclose cx hin) (Expr.le_level_enclose (by decide))
  | @trailing _ _ arg hplace _ ih =>
    intro cx hin
    have hclosed : (arg.enclose Level.updated arg.grouped).level = Level.closed := by
      cases arg with
      | ident | dot | index | call => rfl
      | _ => cases hplace
    exact .trailing (ih.enclose cx hin) hclosed
  | dot hobject hname ih =>
    intro cx hin
    exact .dot (ih.enclose cx hin) hobject.isObject_enclose (isName_of_isWord hname)
  | index hobject _ ihObject ihProperty =>
    intro cx hin
    exact .index (ihObject.enclose cx hin) hobject.isObject_enclose (ihProperty cx.allowIn rfl)
  | call hcallee _ ihCallee ihArgs =>
    intro cx hin
    exact .call (ihCallee.enclose cx hin) hcallee.isObject_enclose (formed_args rfl ihArgs)
  | paren _ ih => exact fun cx _ => .paren (ih cx.allowIn rfl)

end

/-- A tree of operators is printed with the parentheses that it needs: what is
parsed from the text is the same tree up to parentheses and spans. -/
theorem Expr.ofSource_print_operational {e : Expr} (h : Operational e) (sp : Span) :
    ∃ sp' q, Program.ofSource (Program.print [.expr sp e]) = .ok [.expr sp' q] ∧
      q.unparen.bare = e.unparen.bare := by
  have hformed : Formed .script (.stmts .top [] [.expr sp e.grouped]) :=
    .moreStmts (.exprStmt h.exprLead_grouped (h.formed_grouped .top rfl)) .noStmts
  have hprint : Program.print [.expr sp e.grouped] = Program.print [.expr sp e] := by
    simp only [Program.print, Stmt.listPieces, Stmt.pieces, Expr.pieces_grouped]
  rcases Program.ofSource_print hformed with ⟨p, hparsed, hbare⟩
  rw [hprint] at hparsed
  rcases Stmt.single_of_listBare hbare with ⟨s, rfl, hs⟩
  rcases Stmt.expr_of_bare hs with ⟨sp', q, rfl, hq⟩
  refine ⟨sp', q, hparsed, ?_⟩
  calc q.unparen.bare = q.bare.unparen := (Expr.unparen_bare q).symm
    _ = e.grouped.bare.unparen := by rw [hq]
    _ = e.grouped.unparen.bare := Expr.unparen_bare e.grouped
    _ = e.unparen.bare := by rw [Expr.unparen_grouped]

/-- A power of a sequence and of an assignment, whose parts all need
parentheses or blanks. -/
theorem Expr.ofSource_print_operational_power :
    ∃ e : Expr, Operational e ∧ Program.print [.expr .nowhere e] = "++(a,b)**(a.in=+ +b);" ∧
      ∃ sp q, Program.ofSource (Program.print [.expr .nowhere e]) = .ok [.expr sp q] ∧
        q.unparen.bare = e.unparen.bare := by
  have ha : Operational (.ident .nowhere "a") := .ident (by decide +kernel)
  have hb : Operational (.ident .nowhere "b") := .ident (by decide +kernel)
  have hitems : ∀ e ∈ [Expr.ident .nowhere "a", .ident .nowhere "b"], Operational e := by
    intro e he
    rcases List.mem_pair.mp he with rfl | rfl
    · exact ha
    · exact hb
  have hbase : Operational (.update .nowhere .increment true
      (.sequence .nowhere [.ident .nowhere "a", .ident .nowhere "b"])) :=
    .leading (.sequence (Nat.le_refl 2) hitems)
  have hmember : Operational (.dot .nowhere (.ident .nowhere "a") .nowhere "in") :=
    .dot ha (by decide +kernel)
  have hexponent : Operational (.assign .nowhere .assign
      (.dot .nowhere (.ident .nowhere "a") .nowhere "in")
      (.unary .nowhere .plus (.unary .nowhere .plus (.ident .nowhere "b")))) :=
    .assign rfl hmember (.unary (.unary hb))
  have hpower := @Operational.binary .nowhere .pow _ _ hbase hexponent
  exact ⟨_, hpower, by decide +kernel, Expr.ofSource_print_operational hpower .nowhere⟩

end ScriptBundler
