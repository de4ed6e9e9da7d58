import ScriptBundler.Proofs.WellFormed
import ScriptBundler.Proofs.Relocation

/-!
# What is printed for a phrase

The pieces of a phrase, in terms of the pieces of its parts, and the lexemes of
the texts that pieces are made of: every keyword and every mark is one lexeme,
names and numbers of a well-formed tree are, and literals are cut the same
wherever they stand.
-/

namespace ScriptBundler

open Piece

def Token.Kind.text : Token.Kind → String
  | .keyword word => word.text
  | .punct mark => String.ofList mark.chars
  | _ => ""

def Token.Kind.isFixed : Token.Kind → Bool
  | .keyword _ | .punct _ => true
  | _ => false

def UnaryOp.kind : UnaryOp → Token.Kind
  | .minus => .punct .minus
  | .plus => .punct .plus
  | .not => .punct .bang
  | .bitNot => .punct .tilde
  | .typeof => .keyword .kwTypeof
  | .void => .keyword .kwVoid
  | .delete => .keyword .kwDelete

theorem UnaryOp.ofKind?_kind (op : UnaryOp) : UnaryOp.ofKind? op.kind = some op := by
  cases op <;> rfl

def UpdateOp.kind : UpdateOp → Token.Kind
  | .increment => .punct .plusPlus
  | .decrement => .punct .minusMinus

theorem UpdateOp.ofKind?_kind (op : UpdateOp) : UpdateOp.ofKind? op.kind = some op := by
  cases op <;> rfl

def AssignOp.kind : AssignOp → Token.Kind
  | .assign => .punct .eq
  | .addAssign => .punct .plusEq
  | .subAssign => .punct .minusEq
  | .mulAssign => .punct .starEq
  | .divAssign => .punct .slashEq
  | .modAssign => .punct .percentEq
  | .powAssign => .punct .starStarEq
  | .shlAssign => .punct .ltLtEq
  | .shrAssign => .punct .gtGtEq
  | .uShrAssign => .punct .gtGtGtEq
  | .bitOrAssign => .punct .pipeEq
  | .bitXorAssign => .punct .caretEq
  | .bitAndAssign => .punct .ampEq

theorem AssignOp.ofKind?_kind (op : AssignOp) : AssignOp.ofKind? op.kind = some op := by
  cases op <;> rfl

def VarKind.kind : VarKind → Token.Kind
  | .var => .keyword .kwVar
  | .let_ => .keyword .kwLet
  | .const => .keyword .kwConst

theorem VarKind.ofKind?_kind (kind : VarKind) : VarKind.ofKind? kind.kind = some kind := by
  cases kind <;> rfl

theorem Expr.fit_of_le {e : Expr} {required : Nat} {own : List Piece} (h : required ≤ e.level) :
    e.fit required own = own :=
  if_neg (Nat.not_lt_of_le h)

namespace Grammar
namespace ItemClass

def pieces : (c : ItemClass) → c.Item → List Piece
  | param => Param.pieces
  | arg => fun e => e.fit Level.assignment e.pieces
  | element => Expr.optionPieces Level.assignment
  | property => Property.pieces
  | arrayElement => ArrayElement.pieces
  | objectElement => ObjectElement.pieces
  | importName => fun s => s.namedPieces?.getD []
  | exportName => ExportSpecifier.pieces

def isHole : (c : ItemClass) → c.Item → Bool
  | element => Option.isNone
  | arrayElement => ArrayElement.isHole
  | param | arg | property | objectElement | importName | exportName => fun _ => false

def listPieces (c : ItemClass) : List c.Item → List Piece
  | [] => put (String.ofList c.close.chars)
  | x :: xs =>
    c.pieces x ++ (if xs.isEmpty && !c.isHole x then [] else put ",") ++ c.listPieces xs

theorem commas_singleton (a : List Piece) : commas [a] = a := by
  rw [commas, List.intersperse_singleton, List.flatten_singleton]

theorem commas_cons_cons (a b : List Piece) (rest : List (List Piece)) :
    commas (a :: b :: rest) = a ++ put "," ++ commas (b :: rest) := by
  simp [commas]

theorem listPieces_eq (c : ItemClass) (xs : List c.Item) :
    commas (xs.map c.pieces) ++ holePieces (xs.getLast?.any c.isHole) ++
      put (String.ofList c.close.chars) = c.listPieces xs := by
  induction xs with
  | nil => rfl
  | cons x xs ih =>
    rw [listPieces, ← ih]
    cases xs with
    | nil =>
      cases hhole : c.isHole x <;>
      simp [commas, holePieces, putIf, hhole]
    | cons y ys =>
      rw [List.getLast?_cons_cons, List.map_cons, List.map_cons, commas_cons_cons]
      simp

theorem listPieces_eq_commas (c : ItemClass) (xs : List c.Item) (h : c.isHole = fun _ => false) :
    commas (xs.map c.pieces) ++ put (String.ofList c.close.chars) = c.listPieces xs := by
  rw [← listPieces_eq, h]
  cases xs.getLast? <;> simp [holePieces, putIf]

end ItemClass

def sourcePieces : Option String → List Piece
  | some source => put " from " ++ put source
  | none => []

/-- The pieces that are printed for a phrase.  The parentheses of a condition
are printed with the words around it. -/
@[simp]
def Phrase.pieces : Phrase → List Piece
  | .expr _ e | .condition _ e => e.pieces
  | .others _ es => es.flatMap fun e => put "," ++ e.fit Level.assignment e.pieces
  | .items _ c xs => c.listPieces xs
  | .item _ c x => c.pieces x
  | .key _ k => k.pieces
  | .binding _ b => b.pieces
  | .value _ v => Expr.valuePieces v
  | .template _ raw => put raw
  | .templateRest _ | .substitution _ => []
  | .func f => f.pieces
  | .funcRest f => { f with isAsync := false }.pieces
  | .callable _ params body =>
    put "(" ++ ItemClass.param.listPieces params ++ braces (Stmt.listPieces body)
  | .arrowHead isAsync params =>
    putIf isAsync "async" ++ (put "(" ++ ItemClass.param.listPieces params) ++ put "=>"
  | .classRest _ name e ms =>
    put "class" ++ namePieces name ++ Expr.parentPieces e ++
      braces (ClassMember.listPieces ms)
  | .parent _ e => Expr.parentPieces e
  | .members _ ms => ClassMember.listPieces ms ++ put "\x7d"
  | .member _ m => m.pieces
  | .block _ body => braces (Stmt.listPieces body)
  | .stmts _ _ body => Stmt.listPieces body
  | .stmt _ s => s.pieces
  | .optional _ e => Expr.optionPieces Level.anything e
  | .decls _ ds => commas (Declarator.listPieces ds)
  | .decl _ d => d.pieces
  | .forLeft _ left => left.pieces
  | .forInit _ init => init.pieces
  | .cases _ cs => SwitchCase.listPieces cs ++ put "\x7d"
  | .case _ c => c.pieces
  | .handler _ param body =>
    put "catch" ++ Binding.handlerPieces param ++ braces (Stmt.listPieces body)
  | .exported _ e =>
    e.fit Level.assignment e.pieces ++ (if e.declares then [] else stick ";")
  | .importList specifiers | .importClause specifiers => ImportSpecifier.clausePieces specifiers

theorem Expr.listPieces_eq_map (es : List Expr) :
    Expr.listPieces es = es.map ItemClass.arg.pieces :=
  eq_map_of_cons rfl (fun _ _ => rfl) es

theorem Expr.elementPieces_eq_map (es : List (Option Expr)) :
    Expr.elementPieces es = es.map ItemClass.element.pieces :=
  eq_map_of_cons rfl (fun _ _ => rfl) es

theorem Property.listPieces_eq_map (ps : List Property) :
    Property.listPieces ps = ps.map ItemClass.property.pieces :=
  eq_map_of_cons rfl (fun _ _ => rfl) ps

theorem Param.listPieces_eq_map (ps : List Param) :
    Param.listPieces ps = ps.map ItemClass.param.pieces :=
  eq_map_of_cons rfl (fun _ _ => rfl) ps

theorem ArrayElement.listPieces_eq_map (es : List ArrayElement) :
    ArrayElement.listPieces es = es.map ItemClass.arrayElement.pieces :=
  eq_map_of_cons rfl (fun _ _ => rfl) es

theorem ObjectElement.listPieces_eq_map (es : List ObjectElement) :
    ObjectElement.listPieces es = es.map ItemClass.objectElement.pieces :=
  eq_map_of_cons rfl (fun _ _ => rfl) es

section
variable {sp : Span}

theorem pieces_array (elements : List (Option Expr)) :
    (Expr.array sp elements).pieces = put "[" ++ ItemClass.element.listPieces elements := by
  rw [Expr.pieces, brackets, ← ItemClass.listPieces_eq, Expr.elementPieces_eq_map]
  simp only [List.append_assoc]
  rfl

theorem pieces_object (properties : List Property) :
    (Expr.object sp properties).pieces =
      put "\x7b" ++ ItemClass.property.listPieces properties := by
  rw [Expr.pieces, braces, ← ItemClass.listPieces_eq_commas .property properties rfl,
    Property.listPieces_eq_map]
  simp only [List.append_assoc]
  rfl

theorem pieces_args (args : List Expr) :
    parens (commas (Expr.listPieces args)) = put "(" ++ ItemClass.arg.listPieces args := by
  rw [parens, ← ItemClass.listPieces_eq_commas .arg args rfl, Expr.listPieces_eq_map]
  simp only [List.append_assoc]
  rfl

theorem pieces_params (params : List Param) :
    parens (commas (Param.listPieces params)) = put "(" ++ ItemClass.param.listPieces params := by
  rw [parens, ← ItemClass.listPieces_eq_commas .param params rfl, Param.listPieces_eq_map]
  simp only [List.append_assoc]
  rfl

theorem pieces_arrayPattern (elements : List ArrayElement) :
    (Binding.array sp elements).pieces = put "[" ++ ItemClass.arrayElement.listPieces elements := by
  rw [Binding.pieces, brackets, ← ItemClass.listPieces_eq, ArrayElement.listPieces_eq_map]
  simp only [List.append_assoc]
  rfl

theorem pieces_objectPattern (properties : List ObjectElement) :
    (Binding.object sp properties).pieces =
      put "\x7b" ++ ItemClass.objectElement.listPieces properties := by
  rw [Binding.pieces, braces, ← ItemClass.listPieces_eq_commas .objectElement properties rfl,
    ObjectElement.listPieces_eq_map]
  simp only [List.append_assoc]
  rfl

theorem pieces_sequence (first : Expr) (others : List Expr) :
    (Expr.sequence sp (first :: others)).pieces = first.fit Level.assignment first.pieces ++
      others.flatMap fun e => put "," ++ e.fit Level.assignment e.pieces := by
  rw [Expr.pieces, Expr.listPieces_eq_map]
  induction others generalizing first with
  | nil => simp [commas, ItemClass.pieces]
  | cons e es ih =>
    rw [List.map_cons, List.map_cons, ItemClass.commas_cons_cons, ← List.map_cons, ih e,
      List.flatMap_cons]
    simp only [List.append_assoc]
    rfl

end

theorem pieces_hole {c : ItemClass} {x : c.Item} (h : c.hole = some x) :
    c.pieces x = [] ∧ c.isHole x = true := by
  cases c <;> cases h <;> exact ⟨rfl, rfl⟩

theorem pieces_method (key : List Piece) (sp : Span) (isAsync isGenerator : Bool)
    (params : List Param) (body : List Stmt) (cx : Context) :
    Func.methodPieces key ⟨sp, none, isAsync, isGenerator, params, body⟩ =
      putIf isAsync "async " ++ putIf isGenerator "*" ++ key ++
        (Phrase.callable cx params body).pieces := by
  rw [Func.methodPieces, pieces_params, Phrase.pieces]
  simp only [List.append_assoc]

theorem pieces_func (f : Func) :
    f.pieces = putIf f.isAsync "async" ++ (Phrase.funcRest f).pieces := by
  obtain ⟨sp, name, isAsync, isGenerator, params, body⟩ := f
  simp only [Phrase.pieces, Func.pieces, List.append_assoc]
  rfl

theorem pieces_funcRest (sp : Span) (name : Option String) (isAsync isGenerator : Bool)
    (params : List Param) (body : List Stmt) (cx : Context) :
    (Phrase.funcRest ⟨sp, name, isAsync, isGenerator, params, body⟩).pieces =
      put "function" ++ putIf isGenerator "*" ++
        (if isGenerator && name.isSome then stick " " else []) ++ namePieces name ++
        (Phrase.callable cx params body).pieces := by
  simp only [Phrase.pieces, Func.pieces, pieces_params, List.append_assoc]
  rfl

section
variable (sp sp' : Span) (cx : Context) (e : Expr) (param : Option Binding)
  (body handler finalizer : List Stmt)

theorem pieces_switch (cs : List SwitchCase) :
    (Stmt.switch sp e cs).pieces =
      put "switch(" ++ e.pieces ++ put ")\x7b" ++ (Phrase.cases cx cs).pieces := by
  simp only [Stmt.pieces, Phrase.pieces, List.append_assoc]

theorem pieces_tryCatch :
    (Stmt.tryCatch sp body sp' param handler).pieces =
      put "try" ++ (Phrase.block cx body).pieces ++ (Phrase.handler cx param handler).pieces := by
  simp only [Stmt.pieces, Phrase.pieces, List.append_assoc]

theorem pieces_tryCatchFinally :
    (Stmt.tryCatchFinally sp body sp' param handler finalizer).pieces =
      put "try" ++ (Phrase.block cx body).pieces ++ (Phrase.handler cx param handler).pieces ++
        put "finally" ++ (Phrase.block cx finalizer).pieces := by
  simp only [Stmt.pieces, Phrase.pieces, List.append_assoc]

theorem pieces_exportNamed (source : Option String) (specifiers : List ExportSpecifier) :
    (Stmt.exportNamed sp source specifiers).pieces =
      put "export\x7b" ++ ItemClass.exportName.listPieces specifiers ++ sourcePieces source ++
        stick ";" := by
  rw [← ItemClass.listPieces_eq_commas .exportName specifiers rfl, ← List.append_assoc]
  rfl

theorem pieces_moreMembers (m : ClassMember) (ms : List ClassMember) :
    (Phrase.members cx (m :: ms)).pieces = m.pieces ++ (Phrase.members cx ms).pieces := by
  simp only [ClassMember.listPieces, Phrase.pieces, List.append_assoc]

theorem pieces_moreCases (c : SwitchCase) (cs : List SwitchCase) :
    (Phrase.cases cx (c :: cs)).pieces = c.pieces ++ (Phrase.cases cx cs).pieces := by
  simp only [SwitchCase.listPieces, Phrase.pieces, List.append_assoc]

theorem pieces_moreDecls (d d' : Declarator) (ds : List Declarator) :
    (Phrase.decls cx (d :: d' :: ds)).pieces =
      d.pieces ++ put "," ++ (Phrase.decls cx (d' :: ds)).pieces := by
  simp only [Phrase.pieces, Declarator.listPieces, ItemClass.commas_cons_cons]

end

theorem clausePieces_default (sp : Span) (name : String) (rest : List ImportSpecifier) :
    ImportSpecifier.clausePieces (.default sp name :: rest) =
      put name ++ (if rest.isEmpty then [] else put "," ++ ImportSpecifier.clausePieces rest) := by
  cases rest with
  | nil => rfl
  | cons s rest =>
    cases s with
    | default sp' other | all sp' other =>
      simp only [ImportSpecifier.clausePieces, ImportSpecifier.leadPieces?,
        ImportSpecifier.namedPieces?, List.filterMap_cons, List.cons_append,
        ItemClass.commas_cons_cons, List.isEmpty_cons, Bool.false_eq_true, if_false,
        List.append_assoc]
      rfl
    | named sp' imported other =>
      simp only [ImportSpecifier.clausePieces, ImportSpecifier.leadPieces?,
        ImportSpecifier.namedPieces?, List.filterMap_cons, List.cons_append,
        List.isEmpty_cons, Bool.false_eq_true, if_false]
      cases rest.filterMap ImportSpecifier.leadPieces? with
      | nil => simp only [List.nil_append, ItemClass.commas_cons_cons, List.append_assoc]
      | cons => simp only [List.cons_append, ItemClass.commas_cons_cons, List.append_assoc]

theorem Formed.leadPieces?_eq_none {cx : Context} {xs : List ImportSpecifier}
    {T : Texts} (h : Formed T (.items cx .importName xs)) : ∀ s ∈ xs, s.leadPieces? = none := by
  induction xs with
  | nil => exact nofun
  | cons x xs ih =>
    cases h with
    | hole hhole => cases hhole
    | moreItems hitem hitems =>
      cases hitem with
      | imported => exact List.forall_mem_cons.mpr ⟨rfl, ih hitems⟩

theorem clausePieces_named {xs : List ImportSpecifier} (h : ∀ s ∈ xs, s.leadPieces? = none)
    (hne : xs ≠ []) :
    ImportSpecifier.clausePieces xs = put "\x7b" ++ ItemClass.importName.listPieces xs := by
  have hnamed : xs.filterMap ImportSpecifier.namedPieces? =
      xs.map ItemClass.importName.pieces := by
    clear hne
    induction xs with
    | nil => rfl
    | cons s xs ih =>
      obtain ⟨hs, hxs⟩ := List.forall_mem_cons.mp h
      cases s with
      | named => rw [List.filterMap_cons, List.map_cons, ih hxs]; rfl
      | default | all => cases hs
  rw [ImportSpecifier.clausePieces, List.filterMap_eq_nil_iff.mpr h, hnamed,
    ← ItemClass.listPieces_eq_commas .importName xs rfl]
  cases xs with
  | nil => exact absurd rfl hne
  | cons x xs => simp [commas, braces, ItemClass.close, Punctuator.chars]

theorem worded_text {k : Token.Kind} (h : k.isFixed = true) : Worded k k.text := by
  have hwords : ∀ word ∈ Keyword.all,
      Lexeme.lexemes word.text.toList = [⟨.keyword word, word.text⟩] := by decide +kernel
  have hmarks : ∀ mark ∈ Punctuator.all,
      Lexeme.lexemes mark.chars = [⟨.punct mark, String.ofList mark.chars⟩] := by decide +kernel
  cases k with
  | keyword word => exact hwords word (by cases word <;> decide)
  | punct mark =>
    rw [Worded, Token.Kind.text, String.toList_ofList]
    exact hmarks mark (Punctuator.mem_all mark)
  | _ => cases h

theorem UnaryOp.text_kind (op : UnaryOp) : op.kind.text = op.text := by
  cases op <;> rfl

theorem UpdateOp.text_kind (op : UpdateOp) : op.kind.text = op.text := by
  cases op <;> rfl

theorem AssignOp.text_kind (op : AssignOp) : op.kind.text = op.text := by
  cases op <;> rfl

theorem VarKind.text_kind (kind : VarKind) : kind.kind.text = kind.text := by
  cases kind <;> rfl

theorem BinaryOp.text_of_ofKind? {k : Token.Kind} {op : BinaryOp}
    (h : BinaryOp.ofKind? k = some op) : k.text = op.text := by
  unfold BinaryOp.ofKind? at h
  split at h <;> cases h <;> rfl

structure Stream.Quotes (ts : Stream) (raw : String) (a b : Nat) : Prop where
  lt : a < b
  first : (ts.token a).kind = .stringQuote ∨ (ts.token a).kind = .templateQuote
  last : (ts.token b).kind = .stringQuote ∨ (ts.token b).kind = .templateQuote
  text : ts.textBetween a (b + 1) = raw

section
variable {rd : Reading} {cs : List Char} {raw : String} {a b i j : Nat}

theorem Reading.StringAt.quotes (h : rd.StringAt raw i j) :
    rd.Quotes raw (rd.skip i).1 (j - 1) := by
  obtain ⟨hk, hrest, htext, -⟩ := h
  have hlt : (rd.skip i).1 + 1 < j := hrest.lt
  refine ⟨by omega, .inl hk, .inl hrest.last, ?_⟩
  rwa [show j - 1 + 1 = j by omega]

theorem Derives.quotes [rd.Ended] {cx : Context} (h : Spells rd (.template cx raw) i j) :
    rd.Quotes raw (rd.skip i).1 (j - 1) := by
  cases h with
  | template hk hrest htext _ =>
    have hlt : (rd.skip i).1 + 1 < j := hrest.lt rfl
    refine ⟨by omega, .inr hk, .inr (hrest.quote rfl), ?_⟩
    rwa [show j - 1 + 1 = j by omega]

theorem Stream.Quotes.lexemes_append (h : rd.Quotes raw a b) (hcs : rd.Holds (Lexeme.lexemes cs))
    (more : List Char) :
    Lexeme.lexemes (raw.toList ++ more) = rd.between a (b + 1) ++ Lexeme.lexemes more :=
  h.text ▸ hcs.lexemes_literal (Nat.le_of_lt h.lt) h.last more

theorem Stream.Quotes.lexemes_eq (h : rd.Quotes raw a b) (hcs : rd.Holds (Lexeme.lexemes cs)) :
    Lexeme.lexemes raw.toList = rd.between a (b + 1) := by
  have happend := h.lexemes_append hcs []
  rwa [List.append_nil, show Lexeme.lexemes [] = [] from by rw [Lexeme.lexemes],
    List.append_nil] at happend

theorem Stream.Quotes.lt_length (h : rd.Quotes raw a b) (hcs : rd.Holds (Lexeme.lexemes cs)) :
    b < (Lexeme.lexemes cs).length :=
  hcs.lt_length (by rcases h.last with hk | hk <;> rw [hk] <;> exact nofun)

theorem Stream.Quotes.head (h : rd.Quotes raw a b) (hcs : rd.Holds (Lexeme.lexemes cs)) :
    ∃ d t, raw.toList = d :: t ∧ Lexeme.isQuote d = true := by
  have hlt := h.lt
  have hlength := h.lt_length hcs
  have hend : (rd.token a).kind ≠ .endOfInput := by
    rcases h.first with hk | hk <;> rw [hk] <;> exact nofun
  obtain ⟨d, hd, htext⟩ := Lexeme.toList_of_quote (l := (rd.token a).lexeme)
    (hcs.lexemes_token hend) h.first
  have hfirst := hcs.getElem?_between (a := a) (b := b + 1) (n := 0) hlength (by omega)
  obtain ⟨ls, hls⟩ : ∃ ls, rd.between a (b + 1) = (rd.token a).lexeme :: ls := by
    cases hbetween : rd.between a (b + 1) with
    | nil =>
      rw [hbetween] at hfirst
      cases hfirst
    | cons l ls =>
      rw [hbetween] at hfirst
      exact ⟨ls, by rw [Option.some.inj hfirst]; rfl⟩
  refine ⟨d, Lexeme.textOf ls, ?_, hd⟩
  rw [← h.text, Stream.toList_textBetween (by omega), hls, Lexeme.textOf_cons, htext]
  rfl

end

section
variable {name : String}

theorem isName_of_namesVariable {k : Token.Kind} (h : Parser.namesVariable k = true) :
    k.isName = true := by
  unfold Parser.namesVariable at h
  rw [Bool.or_eq_true, decide_eq_true_eq, decide_eq_true_eq] at h
  rcases h with rfl | rfl <;> rfl

theorem Texts.IsVariable.isName {T : Texts} (h : T.IsVariable name) : T.IsName name :=
  let ⟨k, hk, hname⟩ := h
  ⟨k, isName_of_namesVariable hk, hname⟩

theorem IsVariable.isName (h : IsVariable name) : IsName name :=
  Texts.IsVariable.isName (T := .script) h

theorem Worded.isName (h : Worded .identifier name) : IsName name :=
  ⟨.identifier, rfl, h⟩

end

end Grammar
end ScriptBundler
