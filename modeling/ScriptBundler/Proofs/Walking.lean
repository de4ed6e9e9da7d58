import ScriptBundler.Proofs.Printing
import ScriptBundler.Proofs.Completeness

/-!
# Printed pieces follow each other

No two pieces of a well-formed tree are read together as one lexeme.  Phrases
are told apart by the edges they may follow and the edges they may end in.
-/

namespace ScriptBundler

open Piece

/-!
# Pieces between edges

Pieces pass from some edges to others if each of them may follow the one in front.
-/

namespace Edge

def before : List Edge :=
  [settled, blank, opened]

def after : List Edge :=
  [settled, number, digits]

def every : List Edge :=
  [settled, blank, opened, number, digits]

end Edge

namespace Piece

/-- After each of some edges, pieces may follow and end in one of other
edges. -/
def Passes (S : List Edge) (ps : List Piece) (T : List Edge) : Prop :=
  ∀ edge ∈ S, ∃ edge' ∈ T, Walks edge ps edge'

def fits (p : Piece) (S T : List Edge) : Bool :=
  !p.isLiteral && p.lexemes.all Lexeme.isPlain && joins p.lexemes &&
    (p.lexemes.getLast?.any fun l => T.contains l.edge) &&
    (p.text.toList.head?.any fun d => S.all (·.admits d) &&
      (match p with
        | .apart _ => true
        | .tight _ => d == ' ' || d == ';'))

namespace Passes

variable {S T U V : List Edge} {ps qs : List Piece} {p : Piece} {text : String}

theorem nil (h : ∀ edge ∈ S, edge ∈ T := by decide) : Passes S [] T :=
  fun edge hedge => ⟨edge, h edge hedge, .done⟩

theorem append (h : Passes S ps T) (h' : Passes T qs U) : Passes S (ps ++ qs) U := by
  intro edge hedge
  obtain ⟨edge₁, hedge₁, hwalks⟩ := h edge hedge
  obtain ⟨edge₂, hedge₂, hwalks'⟩ := h' edge₁ hedge₁
  exact ⟨edge₂, hedge₂, hwalks.append hwalks'⟩

theorem mono (h : Passes S ps T) (hS : ∀ edge ∈ U, edge ∈ S := by decide)
    (hT : ∀ edge ∈ T, edge ∈ V := by decide) : Passes U ps V := by
  intro edge hedge
  obtain ⟨edge₁, hedge₁, hwalks⟩ := h edge (hS edge hedge)
  exact ⟨edge₁, hT edge₁ hedge₁, hwalks⟩

theorem widen (h : Passes S ps T) (hT : ∀ edge ∈ T, edge ∈ V := by decide) : Passes S ps V :=
  h.mono (fun _ hedge => hedge) hT

theorem of_shape {d : Char} {edge : Edge} (h : Shape (.apart text) d edge)
    (hS : ∀ edge ∈ S, edge.admits d = true) (hT : edge ∈ T) : Passes S (Piece.put text) T :=
  fun edge' hedge' => ⟨edge, hT, .apart h (hS edge' hedge') .done⟩

theorem of_fits (h : p.fits S T = true) : Passes S [p] T := by
  unfold fits at h
  simp only [Bool.and_eq_true, Bool.not_eq_true', Option.any_eq_true, List.all_eq_true,
    List.contains_iff_mem] at h
  obtain ⟨⟨⟨⟨hliteral, hplain⟩, hjoins⟩, l, hlast, hT⟩, d, hfirst, hS, htight⟩ := h
  obtain ⟨t, htext⟩ : ∃ t, p.text.toList = d :: t := by
    cases htext : p.text.toList with
    | nil => rw [htext] at hfirst; cases hfirst
    | cons c t => rw [htext] at hfirst; cases hfirst; exact ⟨t, rfl⟩
  have hshape : p.Shape d l.edge :=
    .words htext hliteral (List.all_eq_true.mpr hplain) hjoins hlast
  intro edge hedge
  refine ⟨l.edge, hT, ?_⟩
  cases p with
  | apart text => exact .apart hshape (hS edge hedge) .done
  | tight text =>
    simp only [Bool.or_eq_true, beq_iff_eq] at htight
    exact .tight hshape (hS edge hedge) htight .done

end Passes
end Piece

def Token.Kind.follows (k : Token.Kind) (S T : List Edge) : Bool :=
  k.isFixed && (k.text.toList.head?.any fun d => !Lexeme.isQuote d && S.all (·.admits d)) &&
    T.contains (⟨k, k.text⟩ : Lexeme).edge

namespace Grammar

/-- What an expression ends in.  Numbers that take a point are told apart from
the other objects. -/
def exprEnds (e : Expr) : List Edge :=
  if e.takesPoint then [.digits]
  else if e.level = Level.closed ∧ isNewBare e = false then [.settled, .number]
  else Edge.after

/-- What the pieces of a phrase may follow, and what they may end in. -/
def Phrase.Walks (ph : Phrase) : Prop :=
  match ph with
  | .expr _ e => Passes Edge.before ph.pieces (exprEnds e)
  | .key _ _ | .decls _ _ | .decl _ _ | .condition _ _ =>
    Passes Edge.before ph.pieces Edge.after
  | .value _ _ | .others _ _ => Passes Edge.after ph.pieces Edge.after
  | .item _ _ _ | .optional _ _ | .forInit _ _ | .forLeft _ _ | .parent _ _ =>
    Passes [.settled] ph.pieces Edge.after
  | .items _ _ _ | .member _ _ | .members _ _ | .stmts _ _ _ | .cases _ _ | .templateRest _
  | .substitution _ =>
    Passes [.settled] ph.pieces [.settled]
  | .template _ _ | .callable _ _ _ => Passes Edge.every ph.pieces [.settled]
  | .importList [] | .importClause [] => True
  | .importList _ | .importClause _ => Passes [.settled, .blank] ph.pieces [.settled]
  | _ => Passes Edge.before ph.pieces [.settled]

section
variable {e : Expr}

theorem exprEnds_of_object (h : IsObject e) :
    exprEnds e = if e.takesPoint then [.digits] else [.settled, .number] := by
  unfold exprEnds
  rw [if_pos (show e.level = Level.closed ∧ isNewBare e = false from h)]

theorem exprEnds_of_not_object (h : ¬ IsObject e) : exprEnds e = Edge.after := by
  have htakes : e.takesPoint = false := by
    cases e with
    | number => exact absurd ⟨rfl, rfl⟩ h
    | _ => rfl
  unfold exprEnds
  rw [htakes, if_neg Bool.false_ne_true]
  exact if_neg h

theorem mem_after_of_mem_exprEnds : ∀ edge ∈ exprEnds e, edge ∈ Edge.after := by
  unfold exprEnds
  split
  · decide
  · split <;> decide

theorem settled_mem_exprEnds (h : e.takesPoint = false) : Edge.settled ∈ exprEnds e := by
  unfold exprEnds
  rw [h, if_neg Bool.false_ne_true]
  split <;> decide

end

section
variable {k : Token.Kind} {name raw text : String} {S T : List Edge}

theorem Stream.Quotes.passes {rd : Reading} {cs : List Char} {a b : Nat} (h : rd.Quotes raw a b)
    (hcs : rd.Holds (Lexeme.lexemes cs)) : Passes Edge.every (put raw) [.settled] := by
  obtain ⟨d, t, htext, hd⟩ := h.head hcs
  refine .of_shape (.literal htext hd fun more => ?_) ?_ List.mem_cons_self
  · exact (h.lexemes_append hcs more).trans
      (congrArg (· ++ Lexeme.lexemes more) (h.lexemes_eq hcs).symm)
  · rcases Lexeme.isQuote_iff.mp hd with rfl | rfl | rfl <;> decide

theorem IsString.passes (h : IsString raw) : Passes Edge.every (put raw) [.settled] :=
  let ⟨_, _, _, _, hcs, hstring⟩ := h
  hstring.quotes.passes hcs

theorem IsTemplate.passes {cx : Context} (h : IsTemplate cx raw) :
    Passes Edge.every (put raw) [.settled] :=
  let ⟨_, _, _, _, hcs, htemplate⟩ := h
  have := hcs.ended
  htemplate.quotes.passes hcs

def Edge.barred : List Char :=
  ['=', '<', '>', '*', '&', '|', '/', ' ', '\t', '\r']

theorem Edge.admits_of_not_barred {edge : Edge} {d : Char} (hd : d ∉ Edge.barred)
    (hedge : edge ∈ Edge.before) : edge.admits d = true := by
  simp only [Edge.barred, List.mem_cons, List.not_mem_nil, or_false, not_or] at hd
  simp only [Edge.before, List.mem_cons, List.not_mem_nil, or_false] at hedge
  rcases hedge with rfl | rfl | rfl
  · rfl
  · simp [Edge.admits, Lexeme.isBlank, hd]
  · simp [Edge.admits, hd]

theorem Worded.shape {c : Char} {t : List Char} (h : Worded k name)
    (hplain : (⟨k, name⟩ : Lexeme).isPlain = true) (htext : name.toList = c :: t)
    (hquote : Lexeme.isQuote c = false) : (Piece.apart name).Shape c (⟨k, name⟩ : Lexeme).edge := by
  have hlexemes : (Piece.apart name).lexemes = [⟨k, name⟩] := h
  refine .words htext ?_ ?_ ?_ ?_
  · rw [Piece.isLiteral, show (Piece.apart name).text.toList = c :: t from htext]
    exact hquote
  · rw [hlexemes, List.all_cons, hplain]
    rfl
  · rw [hlexemes]
    rfl
  · rw [hlexemes]
    rfl

theorem passes_text (h : k.follows S T = true) : Passes S (put k.text) T := by
  unfold Token.Kind.follows at h
  simp only [Bool.and_eq_true, Option.any_eq_true, Bool.not_eq_true', List.all_eq_true,
    List.contains_iff_mem] at h
  obtain ⟨⟨hfixed, d, hfirst, hquote, hS⟩, hT⟩ := h
  obtain ⟨t, htext⟩ := List.head?_eq_some_iff.mp hfirst
  have hplain : (⟨k, k.text⟩ : Lexeme).isPlain = true := by
    cases k with
    | keyword | punct => rfl
    | _ => cases hfixed
  exact .of_shape ((worded_text hfixed).shape hplain htext hquote) hS hT

theorem passes_keyword (word : Keyword)
    (h : (Token.Kind.keyword word).follows S T = true := by decide) : Passes S (put word.text) T :=
  passes_text h

theorem passes_mark (mark : Punctuator)
    (h : (Token.Kind.punct mark).follows S T = true := by decide) :
    Passes S (put (String.ofList mark.chars)) T :=
  passes_text h

/-- Texts that are always printed alike, with the edges in front of them and
behind them. -/
def fixedPieces : List (Piece × List Edge × List Edge) :=
  let opening (text : String) : Piece × List Edge × List Edge :=
    (.apart text, Edge.before, Edge.before)
  let leading (text : String) : Piece × List Edge × List Edge :=
    (.apart text, [.settled, .blank], [.settled, .blank])
  [opening "if(", opening "switch(", opening "for(", opening "while(", opening "import ",
    opening "export ", opening "export default ", opening "export\x7b", opening "export * from ",
    leading "get ", leading "set ", leading "async ",
    (.tight ";", Edge.every, [.settled]),
    (.tight " ", [.settled, .opened, .digits], [.blank]),
    (.apart "static ", [.settled], [.settled, .blank]),
    (.apart " as ", [.settled], Edge.before),
    (.apart "* as ", [.settled, .blank], Edge.before),
    (.apart " from ", [.settled], Edge.every),
    (.apart "of", Edge.after, Edge.before),
    (.apart "for(", Edge.before, [.settled]),
    (.apart "import ", Edge.before, [.settled, .blank]),
    (.apart "export\x7b", Edge.before, [.settled]),
    (.apart ")\x7b", Edge.after, [.settled]),
    (.apart ");", Edge.after, [.settled])]

theorem fixedPieces_fit :
    (fixedPieces.all fun entry => entry.1.fits entry.2.1 entry.2.2) = true := by
  decide +kernel

theorem passes_fixed {p : Piece} (h : (p, S, T) ∈ fixedPieces := by decide) : Passes S [p] T :=
  .of_fits (List.all_eq_true.mp fixedPieces_fit (p, S, T) h)

theorem passes_semicolon : Passes Edge.every (stick ";") [.settled] :=
  passes_fixed (by decide)

theorem passes_blank : Passes [.settled, .opened, .digits] (stick " ") [.blank] :=
  passes_fixed (by decide)

theorem Worded.passes (h : Worded k name) (hk : k.isName = true) :
    Passes (.point :: Edge.before) (put name) [.settled] := by
  obtain ⟨c, t, htext, hc, _⟩ := Lexeme.isWordPart_of_isName (l := ⟨k, name⟩) h hk
  obtain ⟨hplain, hedge⟩ :
      (⟨k, name⟩ : Lexeme).isPlain = true ∧ (⟨k, name⟩ : Lexeme).edge = .settled := by
    cases k with
    | identifier | keyword => exact ⟨rfl, rfl⟩
    | _ => cases hk
  have hquote : Lexeme.isQuote c = false := by
    refine Bool.eq_false_iff.mpr fun hquote => ?_
    rcases Lexeme.isQuote_iff.mp hquote with rfl | rfl | rfl <;> cases hc
  have hbarred : ∀ d ∈ Edge.barred, Lexeme.isWordStart d = false := by
    simp [Edge.barred, Lexeme.isWordStart]
  refine .of_shape (h.shape hplain htext hquote) (fun edge hmem => ?_) (hedge ▸ List.mem_cons_self)
  rcases List.mem_cons.mp hmem with rfl | hmem
  · exact hc
  · exact Edge.admits_of_not_barred (fun hd => by rw [hbarred c hd] at hc; cases hc) hmem

theorem IsName.passes_point (h : IsName name) : Passes [.point] (put name) [.settled] :=
  let ⟨_, hk, hname⟩ := h
  (hname.passes hk).mono (by decide) (by decide)

theorem IsName.passes (h : IsName name) : Passes Edge.before (put name) [.settled] :=
  let ⟨_, hk, hname⟩ := h
  (hname.passes hk).mono (by decide) (by decide)

theorem Worded.passes_number (h : Worded .number raw) (sp : Span) :
    Passes Edge.before (put raw) (exprEnds (.number sp raw)) := by
  have hlexeme := Lexeme.isLexeme_of_own (l := ⟨.number, raw⟩) h rfl nofun
  obtain ⟨c, t, htext, hc⟩ : ∃ c t, raw.toList = c :: t ∧ (c.isDigit = true ∨ c = '.') := by
    generalize raw.toList = text at hlexeme
    cases hlexeme with
    | number hnumber =>
      obtain ⟨c, t, rfl⟩ := List.exists_cons_of_ne_nil hnumber.ne_nil
      have hstarts := hnumber.startsNumber List.prefix_rfl
      simp only [Lexeme.startsNumber, Bool.or_eq_true, Bool.and_eq_true, beq_iff_eq] at hstarts
      exact ⟨c, t, rfl, hstarts.imp_right And.left⟩
  have hquote : Lexeme.isQuote c = false := by
    refine Bool.eq_false_iff.mpr fun hquote => ?_
    rcases Lexeme.isQuote_iff.mp hquote with rfl | rfl | rfl <;> rcases hc with hc | hc <;> cases hc
  have hbarred : ∀ d ∈ Edge.barred, d.isDigit = false ∧ d ≠ '.' := by
    simp [Edge.barred, Char.isDigit]
  refine .of_shape (h.shape rfl htext hquote) (fun edge => Edge.admits_of_not_barred ?_) ?_
  · intro hd
    rcases hc with hc | hc
    · rw [(hbarred c hd).1] at hc
      cases hc
    · exact (hbarred c hd).2 hc
  · have hobject : (Expr.number sp raw).level = Level.closed ∧ isNewBare (.number sp raw) = false :=
      ⟨rfl, rfl⟩
    simp only [exprEnds, Lexeme.edge, Expr.takesPoint, if_pos hobject]
    generalize raw.toList.all Char.isDigit = digits
    cases digits <;> decide

end

theorem passes_unary (op : UnaryOp) : Passes Edge.before (put op.text) Edge.before := by
  rw [← UnaryOp.text_kind]
  exact passes_text (by cases op <;> decide)

theorem passes_update (op : UpdateOp) : Passes Edge.every (put op.text) [.settled] := by
  rw [← UpdateOp.text_kind]
  exact passes_text (by cases op <;> decide)

theorem passes_assign (op : AssignOp) : Passes Edge.after (put op.text) Edge.before := by
  rw [← AssignOp.text_kind]
  exact passes_text (by cases op <;> decide)

theorem passes_binary {k : Token.Kind} {op : BinaryOp} (h : BinaryOp.ofKind? k = some op) :
    Passes Edge.after (put op.text) Edge.before := by
  rw [← BinaryOp.text_of_ofKind? h]
  refine passes_text ?_
  unfold BinaryOp.ofKind? at h
  split at h <;> first | decide | cases h

theorem passes_vars (kind : VarKind) :
    Passes Edge.before (put kind.text ++ stick " ") [.blank] := by
  rw [← VarKind.text_kind]
  exact (passes_text (T := [.settled]) (by cases kind <;> decide)).append
    (passes_blank.mono (by decide) (by decide))

theorem passes_compound {text : String} (h : text ∈ ["if(", "switch(", "for(", "while(", "import ",
    "export ", "export default ", "export\x7b", "export * from "] := by decide) :
    Passes Edge.before (put text) Edge.before :=
  passes_fixed (by
    have hall : ∀ text ∈ ["if(", "switch(", "for(", "while(", "import ", "export ",
        "export default ", "export\x7b", "export * from "],
        (Piece.apart text, Edge.before, Edge.before) ∈ fixedPieces := by decide
    exact hall text h)

section
variable {name other text : String} {ps : List Piece} {S T : List Edge}

theorem passes_renamed (h : IsName name) (h' : name = other ∨ IsName other) :
    Passes Edge.before (renamedPieces name other) [.settled] := by
  unfold renamedPieces
  split
  · exact h.passes
  · rename_i hne
    have has : Passes [.settled] (put " as ") Edge.before := passes_fixed (by decide)
    exact (h.passes.append has).append (h'.resolve_left hne).passes

theorem passes_name {name : Option String} (h : ∀ text ∈ name, Worded .identifier text)
    (hS : ∀ edge ∈ S, edge ∈ Edge.before := by decide) :
    Passes S (namePieces name) (.settled :: S) := by
  cases name with
  | none => exact .nil fun _ hedge => List.mem_cons_of_mem _ hedge
  | some text =>
    exact (h text rfl).isName.passes.mono hS fun _ hedge =>
      List.mem_singleton.mp hedge ▸ List.mem_cons_self

theorem passes_putIf {condition : Bool} (h : Passes S (put text) T)
    (hsub : ∀ edge ∈ S, edge ∈ T := by decide) : Passes S (putIf condition text) T := by
  cases condition with
  | true => exact h
  | false => exact .nil hsub

theorem passes_braces (h : Passes [.settled] ps [.settled]) :
    Passes Edge.every (braces ps) [.settled] :=
  ((passes_mark .lBrace (by decide)).append h).append (passes_mark .rBrace (by decide))

theorem passes_close (c : ItemClass) :
    Passes Edge.every (put (String.ofList c.close.chars)) [.settled] :=
  passes_mark c.close (by cases c <;> decide)

theorem passes_kind (kind : MethodKind) :
    Passes [.settled, .blank] kind.pieces [.settled, .blank] := by
  cases kind with
  | method => exact .nil (by decide)
  | get | set => exact passes_fixed (by decide)

theorem passes_static (isStatic : Bool) :
    Passes [.settled] (putIf isStatic "static ") [.settled, .blank] :=
  passes_putIf (passes_fixed (by decide)) (by decide)

end

theorem passes_method {cx cx' : Context} {key : PropertyKey} {params : List Param}
    {body : List Stmt} (hkey : (Phrase.key cx key).Walks)
    (hcallable : (Phrase.callable cx' params body).Walks) (kind : MethodKind) (sp : Span)
    (isAsync isGenerator : Bool) :
    Passes [.settled, .blank]
      (kind.pieces ++ Func.methodPieces key.pieces ⟨sp, none, isAsync, isGenerator, params, body⟩)
      [.settled] := by
  have hasync : Passes [.settled, .blank] (putIf isAsync "async ") [.settled, .blank] :=
    passes_putIf (passes_fixed (by decide)) (by decide)
  have hstar : Passes [.settled, .blank] (putIf isGenerator "*") Edge.before :=
    passes_putIf (passes_mark .star (by decide)) (by decide)
  have hcallable : Passes Edge.after (Phrase.callable cx' params body).pieces [.settled] :=
    Passes.mono hcallable (by decide) (by decide)
  rw [pieces_method _ _ _ _ _ _ cx']
  exact (passes_kind kind).append (((hasync.append hstar).append hkey).append hcallable)

theorem passes_function (isGenerator : Bool) (name : Option String) :
    Passes Edge.before (put "function" ++ putIf isGenerator "*" ++
      (if isGenerator && name.isSome then stick " " else [])) Edge.before := by
  have hfunction : Passes Edge.before (put "function") [.settled] :=
    passes_keyword .kwFunction (by decide)
  cases isGenerator with
  | false => exact hfunction.widen (by decide)
  | true =>
    have hstar : Passes Edge.before (put "function" ++ put "*") [.opened] :=
      hfunction.append (passes_mark .star (by decide))
    cases name with
    | none => exact hstar.widen (by decide)
    | some => exact hstar.append (passes_blank.mono (by decide) (by decide))

section
variable {cx : Context} {e : Expr}

theorem Phrase.Walks.operand (h : (Phrase.expr cx e).Walks) :
    Passes Edge.before e.pieces Edge.after :=
  Passes.widen h mem_after_of_mem_exprEnds

theorem Phrase.Walks.fit {required : Nat} (h : (Phrase.expr cx e).Walks)
    (hlevel : required ≤ e.level) : Passes Edge.before (e.fit required e.pieces) Edge.after := by
  rw [Expr.fit_of_le hlevel]
  exact h.operand

theorem Phrase.Walks.fit_closed {required : Nat} (h : (Phrase.expr cx e).Walks)
    (hlevel : e.level = Level.closed) (hrequired : required ≤ Level.closed := by decide) :
    Passes Edge.before (e.fit required e.pieces) Edge.after :=
  h.fit (hlevel.symm ▸ hrequired)

theorem walks_of_settled (h : Passes Edge.before e.pieces [.settled])
    (htakes : e.takesPoint = false := by rfl) : (Phrase.expr cx e).Walks :=
  h.widen fun _ hedge => List.mem_singleton.mp hedge ▸ settled_mem_exprEnds htakes

theorem walks_of_after (h : Passes Edge.before e.pieces Edge.after)
    (hends : exprEnds e = Edge.after := by rfl) : (Phrase.expr cx e).Walks :=
  show Passes _ _ _ from hends.symm ▸ h

theorem Phrase.Walks.point (h : (Phrase.expr cx e).Walks) (hobject : IsObject e) :
    Passes Edge.before
      (e.fit Level.call e.pieces ++ (if e.takesPoint then stick " " else []) ++ put ".")
      [.point] := by
  have hends := exprEnds_of_object hobject
  change Passes Edge.before e.pieces (exprEnds e) at h
  rw [Expr.fit_of_le (show Level.call ≤ e.level by rw [hobject.1]; decide)]
  split
  · rename_i htakes
    rw [hends, if_pos htakes] at h
    exact (h.append (passes_blank.mono (V := [.blank]) (by decide) (by decide))).append
      (passes_mark .dot (by decide))
  · rename_i htakes
    rw [hends, if_neg htakes] at h
    rw [List.append_nil]
    exact h.append (passes_mark .dot (by decide))

end

theorem declares_of_exprLead {e : Expr} (h : exprLead e = .other ∨ exprLead e = .brace) :
    e.declares = false := by
  cases e with
  | function _ f =>
    unfold exprLead at h
    split at h <;> rcases h with h | h <;> cases h
  | «class» => rcases h with h | h <;> cases h
  | _ => rfl

theorem Formed.walks {ph : Phrase} (h : Formed .script ph) : ph.Walks := by
  induction h with
  | null => exact walks_of_settled (passes_keyword .kwNull)
  | this => exact walks_of_settled (passes_keyword .kwThis)
  | super => exact walks_of_settled (passes_keyword .kwSuper)
  | @bool _ _ value =>
    refine walks_of_settled ?_
    cases value with
    | true => exact passes_keyword .kwTrue
    | false => exact passes_keyword .kwFalse
  | number h => exact h.passes_number _
  | string h => exact walks_of_settled h.passes.mono
  | quasi _ ih => exact walks_of_settled (Passes.mono ih)
  | regex h => exact h.elim
  | ident h => exact walks_of_settled (IsVariable.isName h).passes
  | array _ ih =>
    refine walks_of_settled ?_
    rw [pieces_array]
    exact (passes_mark .lBracket).append ih
  | object _ ih =>
    refine walks_of_settled ?_
    rw [pieces_object]
    exact (passes_mark .lBrace).append ih
  | function _ ih | «class» _ ih => exact walks_of_settled ih
  | paren _ ih =>
    exact walks_of_settled (((passes_mark .lParen).append ih.operand).append (passes_mark .rParen))
  | dot _ hobject hname ih =>
    exact walks_of_settled ((ih.point hobject).append (IsName.passes_point hname))
  | index _ hobject _ ih ih' =>
    exact walks_of_settled ((ih.fit_closed hobject.1).append
      (((passes_mark .lBracket).append ih'.operand).append
        (passes_mark .rBracket)))
  | call _ hobject _ ih ih' =>
    refine walks_of_settled ?_
    rw [Expr.pieces, pieces_args]
    exact (ih.fit_closed hobject.1).append ((passes_mark .lParen).append ih')
  | tagged _ hobject _ ih ih' =>
    exact walks_of_settled ((ih.fit_closed hobject.1).append (Passes.mono ih'))
  | new _ hconstructs _ ih ih' =>
    refine walks_of_settled ?_
    rw [Expr.pieces, pieces_args]
    exact ((passes_keyword .kwNew).append
      (ih.fit_closed (closed_of_constructs (.inl hconstructs)))).append
      ((passes_mark .lParen).append ih')
  | newBare _ hconstructs ih =>
    exact walks_of_after ((passes_keyword .kwNew).append
      (ih.fit_closed (closed_of_constructs hconstructs)))
  | unary _ hlevel ih => exact walks_of_after ((passes_unary _).append (ih.fit hlevel))
  | await _ _ hlevel ih => exact walks_of_after ((passes_keyword .kwAwait).append (ih.fit hlevel))
  | leading _ hlevel ih => exact walks_of_after ((passes_update _).mono.append (ih.fit hlevel))
  | trailing _ hlevel ih =>
    exact walks_of_settled ((ih.fit_closed hlevel).append (passes_update _).mono)
  | @binary cx _ k op _ _ _ hleft hop _ hright ih ih' =>
    have hop : BinaryOp.ofKind? k = some op := by
      unfold infixOp? at hop
      split at hop
      · cases hop
      · exact hop
    refine walks_of_after (((ih.fit hleft).append (passes_binary hop)).append (ih'.fit hright)) ?_
    refine exprEnds_of_not_object fun hobject => ?_
    have hbounds := BinaryOp.level_bounds op
    have hclosed : op.level = 255 := hobject.1
    omega
  | conditional _ htest _ hyes _ hno ih ih' ih'' =>
    exact walks_of_after (((((ih.fit htest).append (passes_mark .question)).append
      (ih'.fit hyes)).append (passes_mark .colon)).append (ih''.fit hno))
  | assign _ htarget _ hlevel ih ih' =>
    exact walks_of_after (((ih.fit_closed (Expr.closed_of_isAssignable htarget)).append
      (passes_assign _)).append (ih'.fit hlevel))
  | assignPattern _ _ _ hlevel ih ih' =>
    exact walks_of_after ((Passes.append ih (passes_mark .eq)).append (ih'.fit hlevel))
  | arrow _ _ _ hlevel ih ih' =>
    refine walks_of_after ?_
    rw [Expr.pieces, pieces_params]
    exact (Passes.widen ih).append (ih'.fit hlevel)
  | arrowBlock _ _ ih ih' =>
    refine walks_of_settled ?_
    rw [Expr.pieces, pieces_params]
    exact (Passes.widen ih).append ih'
  | yieldValue _ _ hlevel ih =>
    have hyield : Passes Edge.before (put "yield") [.settled] := passes_keyword .kwYield
    exact walks_of_after ((hyield.append (passes_putIf (passes_mark .star))).append (ih.fit hlevel))
  | yieldNothing => exact walks_of_settled (passes_keyword .kwYield)
  | sequence _ hlevel _ ih ih' =>
    refine walks_of_after ?_
    rw [pieces_sequence]
    exact (ih.fit hlevel).append ih'
  | other _ hlevel ih =>
    rw [Phrase.Walks, Phrase.pieces, List.flatMap_singleton]
    exact (passes_mark .comma).append (ih.fit hlevel)
  | moreOthers _ hlevel _ ih ih' =>
    rw [Phrase.Walks, Phrase.pieces, List.flatMap_cons]
    exact ((passes_mark .comma).append (ih.fit hlevel)).append ih'
  | noItems => exact (passes_close _).mono
  | hole hhole _ ih =>
    obtain ⟨hpieces, hhole⟩ := pieces_hole hhole
    rw [Phrase.Walks, Phrase.pieces, ItemClass.listPieces, hpieces, hhole, Bool.not_true,
      Bool.and_false, if_neg Bool.false_ne_true]
    exact (passes_mark .comma).append ih
  | @moreItems _ c x xs _ _ ih ih' =>
    rw [Phrase.Walks, Phrase.pieces, ItemClass.listPieces]
    split
    · rename_i hlast
      rw [List.isEmpty_iff.mp (Bool.and_eq_true_iff.mp hlast).1, List.append_nil]
      exact Passes.append ih (passes_close c).mono
    · exact (Passes.append ih (passes_mark .comma)).append ih'
  | @spreadArg _ sp e _ hlevel ih =>
    change Passes _ ((Expr.spread sp e).fit Level.assignment (Expr.spread sp e).pieces) _
    rw [Expr.fit_of_le (show Level.assignment ≤ _ from Nat.le_refl _)]
    exact (passes_mark .spread).append (ih.fit hlevel)
  | plainArg _ hlevel ih => exact (ih.fit hlevel).mono
  | element _ ih => exact ih
  | spreadProperty _ hlevel ih => exact (passes_mark .spread).append (ih.fit hlevel)
  | methodProperty _ _ _ ih ih' => exact (passes_method ih ih' _ _ _ _).mono
  | pair _ _ hlevel ih ih' =>
    exact ((Passes.append ih (passes_mark .colon)).append (ih'.fit hlevel)).mono
  | shorthand h => exact h.isName.passes.mono
  | arrayRest _ ih | restParam _ ih => exact (passes_mark .spread).append (Passes.widen ih)
  | arrayItem _ _ ih ih' | plainParam _ _ ih ih' => exact (Passes.mono ih).append ih'
  | objectRest h => exact (passes_mark .spread).append h.isName.passes.widen
  | objectPair _ _ _ ih ih' ih'' =>
    exact (((Passes.append ih (passes_mark .colon)).append (Passes.widen ih')).append ih'').mono
  | objectShort h _ ih => exact h.isName.passes.mono.append ih
  | imported h h' => exact (passes_renamed h (h'.imp_right IsVariable.isName)).mono
  | exportedName h h' => exact (passes_renamed h (.inr h')).mono
  | keyName h => exact (IsName.passes h).widen
  | keyString h => exact h.passes.mono
  | keyNumber h => exact (h.passes_number .nowhere).widen mem_after_of_mem_exprEnds
  | keyComputed _ hlevel ih =>
    exact ((passes_mark .lBracket).append (ih.fit hlevel)).append (passes_mark .rBracket)
  | bound h => exact (IsVariable.isName h).passes
  | boundArray _ ih =>
    change Passes Edge.before (Binding.pieces _) _
    rw [pieces_arrayPattern]
    exact (passes_mark .lBracket).append ih
  | boundObject _ ih =>
    change Passes Edge.before (Binding.pieces _) _
    rw [pieces_objectPattern]
    exact (passes_mark .lBrace).append ih
  | noValue => exact .nil fun _ hedge => hedge
  | value _ hlevel ih => exact (passes_mark .eq).append (ih.fit hlevel)
  | template h => exact h.passes
  | templateRest | substitution => exact .nil fun _ hedge => hedge
  | func _ ih =>
    change Passes Edge.before (Func.pieces _) _
    rw [pieces_func]
    exact (passes_putIf (passes_keyword .kwAsync)).append ih
  | @funcRest _ _ isAsync isGenerator _ _ hname _ ih =>
    change Passes Edge.before (Phrase.pieces _) [.settled]
    rw [pieces_funcRest _ _ _ _ _ _ (Context.function isAsync isGenerator)]
    exact ((passes_function _ _).append (passes_name hname fun _ hedge => hedge)).append
      (Passes.mono ih)
  | callable _ _ ih ih' => exact ((passes_mark .lParen).append ih).append (Passes.mono ih')
  | arrowHead _ ih =>
    have hparams : Passes Edge.before (put "(" ++ ItemClass.param.listPieces _) [.settled] :=
      (passes_mark .lParen).append ih
    exact ((passes_putIf (passes_keyword .kwAsync)).append hparams).append (passes_mark .arrow)
  | classRest hname _ _ ih ih' =>
    have hclass : Passes Edge.before (put "class") [.settled] := passes_keyword .kwClass
    exact ((hclass.append (passes_name hname).widen).append ih).append
      ((passes_mark .lBrace).append ih')
  | noParent | left_out | noInit => exact .nil
  | parent _ hlevel ih => exact (passes_keyword .kwExtends).append (ih.fit_closed hlevel)
  | noMembers | noCases => exact passes_mark .rBrace
  | moreMembers _ _ ih ih' =>
    rw [Phrase.Walks, pieces_moreMembers]
    exact Passes.append ih ih'
  | method _ _ _ ih ih' =>
    rw [Phrase.Walks, Phrase.pieces, ClassMember.pieces, List.append_assoc]
    exact (passes_static _).append (passes_method ih ih' _ _ _ _)
  | field _ _ ih ih' =>
    exact (((passes_static _).widen.append ih).append ih').append passes_semicolon.mono
  | block _ ih => exact (passes_braces ih).mono
  | noStmts => exact .nil fun _ hedge => hedge
  | moreStmts _ _ ih ih' => exact (Passes.mono ih).append ih'
  | condition _ ih => exact ih.operand
  | given _ ih => exact (ih.fit (Nat.zero_le _)).mono
  | lastDecl _ ih =>
    change Passes _ (commas [_]) _
    rw [ItemClass.commas_singleton]
    exact ih
  | @moreDecls _ d ds _ hds ih ih' =>
    obtain ⟨d', ds, rfl⟩ : ∃ d' ds', ds = d' :: ds' := by
      cases hds with
      | lastDecl | moreDecls => exact ⟨_, _, rfl⟩
    rw [Phrase.Walks, pieces_moreDecls]
    exact (Passes.append ih (passes_mark .comma)).append ih'
  | decl _ _ ih ih' => exact (Passes.widen ih).append ih'
  | labeled h _ ih => exact (h.isName.passes.append (passes_mark .colon)).append ih
  | exprStmt _ _ ih => exact ih.operand.append passes_semicolon.mono
  | blockStmt _ ih | classDecl _ _ ih | functionDecl _ _ ih => exact ih
  | exportDefault _ ih => exact (passes_compound).append ih
  | empty => exact passes_semicolon.mono
  | debugger =>
    exact (passes_keyword .kwDebugger).append
      (passes_semicolon.mono (V := [.settled]) (U := [.settled]))
  | throw _ ih => exact ((passes_keyword .kwThrow).append ih.operand).append passes_semicolon.mono
  | switch _ _ ih ih' =>
    have hbrace : Passes Edge.after (put ")\x7b") [.settled] := passes_fixed
    change Passes Edge.before (Stmt.pieces _) [.settled]
    rw [pieces_switch]
    exact (((passes_compound).append ih).append hbrace).append ih'
  | moreCases _ _ ih ih' =>
    rw [Phrase.Walks, pieces_moreCases]
    exact (Passes.mono ih).append ih'
  | testCase _ _ ih ih' =>
    have hcase : Passes Edge.before (put "case") Edge.before := passes_keyword .kwCase
    exact ((hcase.append (ih.fit (Nat.zero_le _))).append (passes_mark .colon)).append ih'
  | defaultCase _ ih =>
    have hdefault : Passes Edge.before (put "default" ++ []) [.settled] := by
      rw [List.append_nil]
      exact passes_keyword .kwDefault
    exact (hdefault.append (passes_mark .colon)).append ih
  | tryCatch _ _ ih ih' =>
    change Passes Edge.before (Stmt.pieces _) [.settled]
    rw [pieces_tryCatch]
    exact ((passes_keyword .kwTry).append ih).append (Passes.mono ih')
  | tryFinally _ _ ih ih' =>
    exact (((passes_keyword .kwTry).append ih).append (passes_keyword .kwFinally)).append ih'
  | tryCatchFinally _ _ _ ih ih' ih'' =>
    change Passes Edge.before (Stmt.pieces _) [.settled]
    rw [pieces_tryCatchFinally]
    exact ((((passes_keyword .kwTry).append ih).append (Passes.mono ih' (V := [.settled]))).append
      (passes_keyword .kwFinally)).append ih''
  | @handler _ b _ _ _ ih ih' =>
    have hparam : Passes [.settled] (parens b.pieces) Edge.before :=
      ((passes_mark .lParen).append ih).append (passes_mark .rParen)
    exact ((passes_keyword .kwCatch).append hparam).append ih'
  | bareHandler _ ih => exact (passes_keyword .kwCatch).append ih
  | vars _ ih => exact ((passes_vars _).widen.append ih).append passes_semicolon.mono
  | doWhile _ _ ih ih' =>
    have hclose : Passes Edge.after (put ");") [.settled] := passes_fixed
    exact ((((passes_keyword .kwDo).append (Passes.widen ih)).append
      passes_compound).append ih').append hclose
  | whileLoop _ _ ih ih' | ifThen _ _ ih ih' =>
    exact (((passes_compound).append ih).append (passes_mark .rParen)).append ih'
  | ifElse _ _ _ _ ih ih' ih'' =>
    exact (((((passes_compound).append ih).append (passes_mark .rParen)).append ih').append
      (passes_keyword .kwElse)).append ih''
  | forIn _ _ _ ih ih' ih'' =>
    have hfor : Passes Edge.before (put "for(") [.settled] := passes_fixed
    exact ((((hfor.append ih).append (passes_keyword .kwIn)).append
      ih'.operand).append (passes_mark .rParen)).append ih''
  | forOf _ _ hlevel _ ih ih' ih'' =>
    have hfor : Passes Edge.before (put "for(") [.settled] := passes_fixed
    have hof : Passes Edge.after (put "of") Edge.before := passes_fixed
    exact ((((hfor.append ih).append hof).append (ih'.fit hlevel)).append
      (passes_mark .rParen)).append ih''
  | @leftVars _ _ kind b _ ih =>
    change Passes _ (put kind.text ++ stick " " ++ commas [b.pieces ++ []]) _
    rw [List.append_nil, ItemClass.commas_singleton]
    exact (passes_vars kind).mono.append (Passes.widen ih)
  | leftPattern _ ih => exact Passes.mono ih
  | forLoop _ _ _ _ ih ih' ih'' ih₃ =>
    have hfor : Passes Edge.before (put "for(") [.settled] := passes_fixed
    have hsemicolon : Passes Edge.after (put ";") [.settled] := passes_mark .semicolon
    exact ((((((hfor.append ih).append hsemicolon).append ih').append hsemicolon).append
      ih'').append (passes_mark .rParen)).append ih₃
  | initVars _ ih => exact (passes_vars _).mono.append ih
  | initExpr _ ih => exact ih.operand.mono
  | ret _ ih => exact ((passes_keyword .kwReturn).append ih).append passes_semicolon.mono
  | breakTo h =>
    have hbreak : Passes Edge.before (put "break") [.settled] := passes_keyword .kwBreak
    exact (hbreak.append (passes_name h)).append passes_semicolon.mono
  | continueTo h =>
    have hcontinue : Passes Edge.before (put "continue") [.settled] :=
      passes_keyword .kwContinue
    exact (hcontinue.append (passes_name h)).append passes_semicolon.mono
  | @importFrom _ _ source specifiers _ h ih =>
    have himport : Passes Edge.before (put "import " ++ (if specifiers.isEmpty then []
        else ImportSpecifier.clausePieces specifiers ++ put " from ")) Edge.every := by
      have hword : Passes Edge.before (put "import ") [.settled, .blank] := passes_fixed
      cases specifiers with
      | nil => exact hword.widen
      | cons s rest =>
        exact hword.append (Passes.append ih passes_fixed)
    exact (himport.append h.passes).append passes_semicolon.mono
  | @clauseBoth _ _ rest h _ ih =>
    change Passes [.settled, .blank] (ImportSpecifier.clausePieces _) [.settled]
    rw [clausePieces_default]
    cases rest with
    | nil => exact (IsVariable.isName h).passes.mono.append (.nil fun _ h => h)
    | cons s rest =>
      exact ((IsVariable.isName h).passes.mono (V := [.settled])).append
        ((passes_mark .comma).append ih)
  | @clauseList specifiers _ ih =>
    cases specifiers with
    | nil => exact True.intro
    | cons => exact ih
  | importAll h =>
    have has : Passes [.settled, .blank] (put "* as ") Edge.before := passes_fixed
    exact has.append (IsVariable.isName h).passes
  | @importNames specifiers h ih =>
    cases specifiers with
    | nil => exact True.intro
    | cons =>
      change Passes [.settled, .blank] (ImportSpecifier.clausePieces _) [.settled]
      rw [clausePieces_named h.leadPieces?_eq_none (List.cons_ne_nil _ _)]
      exact (passes_mark .lBrace).append ih
  | exportedFunc _ ih | exportedClass _ ih =>
    change Passes Edge.before (Expr.fit _ _ _ ++ []) [.settled]
    rw [List.append_nil, Expr.fit_of_le (show 3 ≤ Level.closed by decide)]
    exact ih
  | @exportedValue _ e hlead _ hlevel ih =>
    change Passes _ (_ ++ if e.declares then [] else stick ";") _
    rw [declares_of_exprLead hlead, if_neg Bool.false_ne_true]
    exact (ih.fit hlevel).append passes_semicolon.mono
  | exportAll h =>
    exact ((passes_compound).append h.passes.mono).append (passes_semicolon.mono (U := [.settled]))
  | @exportNamed _ _ source _ _ h ih =>
    have hexport : Passes Edge.before (put "export\x7b") [.settled] := passes_fixed
    have hfrom : Passes [.settled] (put " from ") Edge.every := passes_fixed
    have hsource : Passes [.settled] (sourcePieces source) [.settled] := by
      cases source with
      | none => exact .nil fun _ hedge => hedge
      | some source => exact hfrom.append (h source rfl).passes
    change Passes Edge.before (Stmt.pieces _) [.settled]
    rw [pieces_exportNamed]
    exact ((hexport.append ih).append hsource).append (passes_semicolon.mono (V := [.settled]))
  | exportDecl _ ih => exact (passes_compound).append ih

end Grammar
end ScriptBundler
