import ScriptBundler.Proofs.StatementCompleteness

/-!
# Whole programs are found

Each statement is told by its first tokens, so whatever is spelled is found by
the production that its first word leads to.  With the other productions this
closes the circle: rules that may call each other often enough find everything,
and a program is found as a whole.
-/

namespace ScriptBundler
namespace Grammar

open Grammar.Parser

variable {sp : Span} {i₁ start : Nat}

section
variable {rd : Reading} {E : Failure → Prop} {i j d : Nat} {r : Rules} {cx : Context}
  {Q : Stmt → Nat → Prop}

theorem statement_of_keyword {word : Keyword} (hk : rd.kindAt i = .keyword word)
    (h : ∀ start, Runs rd E (keywordStatement r cx start word) i Q) :
    Runs rd E (statement r cx) i Q := by
  have hk : (rd.nextAt i).kind = .keyword word := hk
  unfold statement
  refine .peek ?_
  simp only [hk]
  exact h _

theorem statement_of_expression
    (hopens : opensStatement (rd.kindAt i) (rd.kindAt (rd.past i)) = false)
    (h : ∀ start, Runs rd E (expressionStatement r cx start) i Q) :
    Runs rd E (statement r cx) i Q := by
  unfold statement
  refine .peek ?_
  split
  · rename_i hk
    change rd.kindAt i = _ at hk
    rw [hk] at hopens
    refine .peekSecondKind ?_
    rw [if_neg (of_decide_eq_false hopens)]
    exact h _
  · rename_i word hk
    change rd.kindAt i = _ at hk
    rw [hk] at hopens
    cases word with
    | kwAsync =>
      refine .peekSecondKind ?_
      rw [if_neg (of_decide_eq_false hopens)]
      exact h _
    | kwThrow | kwSwitch | kwTry | kwVar | kwLet | kwConst | kwClass | kwDo | kwWhile | kwIf
    | kwFor | kwExport | kwImport | kwFunction | kwReturn | kwBreak | kwContinue | kwDebugger
    | kwWith => cases hopens
    | _ => exact h _
  · rename_i hk
    change rd.kindAt i = _ at hk
    rw [hk] at hopens
    cases hopens
  · rename_i hk
    change rd.kindAt i = _ at hk
    rw [hk] at hopens
    cases hopens
  · exact h _

section
variable [rd.Ended]

theorem expressionStatement_finds {e : Expr} (hts : rd.remembers = false)
    (hsound : Sound rd (Guarded rd) d r) (hr : Complete rd d r) (he : Spells rd (.expr cx e) i i₁)
    (hstops : SequenceStops rd (Halts rd) cx.noIn i₁ e) (hclose : rd.Closes i₁ j)
    (hd : rd.tokens.size ≤ i + d + 1) :
    Runs rd E (expressionStatement r cx start) i (Finds Stmt.bare (.expr sp e) j) :=
  .found (commaSequence_finds (fun he' hlevel hends hle =>
    assignment_finds hts hsound hr he' hlevel hends .refl (by omega)) he
      ⟨.of_closes hclose, hstops⟩) fun _ _ hbare => .close hclose fun _ => .spanned fun _ =>
        .pure ⟨rfl, congrArg (Stmt.expr .nowhere) hbare⟩

theorem jumpTo_finds {jump : Span → Option String → Stmt} {label : String}
    (hjump : ∀ sp label, (jump sp label).bare = jump .nowhere label)
    (hbreak : rd.breaksAt i = false) (hlabel : rd.ReadsWord label i i₁) (hclose : rd.Closes i₁ j) :
    Runs rd E (do
      let label ← jumpLabel
      semicolon
      return jump (← spanFrom start) label) i (Finds Stmt.bare (jump sp (some label)) j) := by
  refine .bind (.newlineBefore ?_)
  rw [hbreak]
  exact .no (.sees hlabel.1.1 (.yes (.readName hlabel fun _ => .pure (.close hclose fun _ =>
    .spanned fun _ => .pure ⟨rfl, (hjump _ _).trans (hjump _ _).symm⟩))))

theorem jumpOut_finds {jump : Span → Option String → Stmt}
    (hjump : ∀ sp label, (jump sp label).bare = jump .nowhere label) (hclose : rd.Closes i j) :
    Runs rd E (do
      let label ← jumpLabel
      semicolon
      return jump (← spanFrom start) label) i (Finds Stmt.bare (jump sp none) j) := by
  have hrest : Runs rd E (do
      semicolon
      return jump (← spanFrom start) none) i (Finds Stmt.bare (jump sp none) j) :=
    .close hclose fun _ => .spanned fun _ => .pure ⟨rfl, (hjump _ _).trans (hjump _ _).symm⟩
  exact .bind (.newlineBefore (.ite (fun _ => .pure hrest) fun hline =>
    .misses (fun hk => absurd ((Quiet.of_closes hclose).word hk) hline) (.no (.pure hrest))))

theorem return_finds {e : Option Expr} (hr : Complete rd d r)
    (h : Spells rd (.stmt cx (.ret sp e)) i j) (hd : rd.tokens.size ≤ i + d + 1) :
    Runs rd E (keywordStatement r cx start .kwReturn) i (Finds Stmt.bare (.ret sp e) j) := by
  cases h with
  | @ret _ _ _ _ i₁ _ _ hword hbreak he hstops hclose =>
    refine .takeAt hword fun _ => .bind (.newlineBefore ?_)
    rw [hbreak]
    refine .no (.peekKind ?_)
    have hopens := he.opens
    have hno : ∀ {k}, rd.kindAt i₁ = k → startsExpr k = true := by
      rintro k rfl
      exact hopens
    split
    · cases hno (by assumption)
    · cases hno (by assumption)
    · cases hno (by assumption)
    · refine .pure (.no (.bind (.map ((expression_finds hr he ⟨.of_closes hclose, hstops⟩ .refl
        (by omega)).mono ?_))))
      rintro e' _ _ ⟨rfl, hbare⟩
      exact .close hclose fun _ => .spanned fun _ =>
        .pure ⟨rfl, congrArg (fun e => Stmt.ret .nowhere (some e)) hbare⟩
  | @retNothing _ _ _ i₁ _ hword hclose =>
    have hrest : Runs rd E (do
        semicolon
        return Stmt.ret (← spanFrom start) none) i₁ (Finds Stmt.bare (.ret sp none) j) :=
      .close hclose fun _ => .spanned fun _ => .pure ⟨rfl, rfl⟩
    refine .takeAt hword fun _ => .bind (.newlineBefore (.ite
      (fun _ => .pure (.yes (.bind (.pure hrest)))) fun hline => .peekKind ?_))
    cases hclose with
    | mark hread =>
      rw [hread.1]
      exact .pure (.yes (.bind (.pure hrest)))
    | brace hk | input hk =>
      rw [hk]
      exact .pure (.yes (.bind (.pure hrest)))
    | line _ hbreak => exact absurd hbreak hline

theorem functionDecl_finds {f : Func} (hr : Complete rd d r) (h : Spells rd (.func f) i j)
    (hname : f.name.isSome = true) (hd : rd.tokens.size ≤ i + d + 1) :
    Runs rd E (statement r cx) i (Finds Stmt.bare (.decl (.function sp f)) j) := by
  have hspells := h
  cases hspells with
  | func hasync hf =>
    exact statement_of_keyword (of_decide_eq_true hf.opens) fun start => .found
      (function_finds hr hf hasync (fun _ => hname) hd) fun _ _ hbare => .spanned fun _ =>
        .pure ⟨rfl, congrArg (fun f => Stmt.decl (.function .nowhere f)) hbare⟩
  | asyncFunc hasync hword hf =>
    have hsecond : rd.kindAt (rd.past i) = .keyword .kwFunction :=
      hword.2.1 ▸ of_decide_eq_true hf.opens
    exact statement_of_keyword hword.1 fun start => .peekSecondKind (.ite (fun _ => .found
      (asyncFunction_finds hr h hasync (fun _ => hname) hd) fun _ _ hbare => .spanned fun _ =>
        .pure ⟨rfl, congrArg (fun f => Stmt.decl (.function .nowhere f)) hbare⟩)
      fun hno => absurd hsecond hno)

theorem varsDecl_finds {k : Token.Kind} {kind : VarKind} {ds : List Declarator} {i₁ i₂ : Nat}
    (hr : Complete rd d r) (hread : rd.Reads k i i₁)
    (hkind : VarKind.ofKind? k = some kind) (hds : Spells rd (.decls cx ds) i₁ i₂)
    (hclose : rd.Closes i₂ j) (hd : rd.tokens.size ≤ i + d + 1) :
    Runs rd E (statement r cx) i (Finds Stmt.bare (.decl (.vars sp kind ds)) j) := by
  have hlt := hread.lt
  have hrest : ∀ start, Runs rd E (do
      let kind ← varKind
      let decls ← declarators r cx
      semicolon
      return Stmt.decl (.vars (← spanFrom start) kind decls)) i
      (Finds Stmt.bare (.decl (.vars sp kind ds)) j) := by
    intro start
    refine .found (varKind_finds hread hkind) ?_
    rintro _ _ rfl
    exact .found (declarators_finds hr hds (.of_closes hclose) (by omega)) fun _ _ hbare =>
      .close hclose fun _ => .spanned fun _ =>
        .pure ⟨rfl, congrArg (fun ds => Stmt.decl (.vars .nowhere _ ds)) hbare⟩
  unfold VarKind.ofKind? at hkind
  split at hkind
  all_goals first | exact statement_of_keyword hread.1 hrest | cases hkind

theorem statement_finds {st : Stmt} (hts : rd.remembers = false) (hsound : Sound rd (Guarded rd) d r)
    (hr : Complete rd d r) (h : Spells rd (.stmt cx st) i j) (hd : rd.tokens.size ≤ i + d + 1) :
    Runs rd E (statement r cx) i (Finds Stmt.bare st j) := by
  have hspells := h
  cases hspells with
  | labeled hlabel hcolon hbody =>
    have hk : (rd.nextAt i).kind = .identifier := hlabel.1.1
    have hsecond : rd.kindAt (rd.past i) = .punct .colon := hlabel.1.2.1 ▸ hcolon.1
    unfold statement
    refine .peek ?_
    simp only [hk]
    refine .peekSecondKind (.ite (fun _ => .readName hlabel fun _ => .readMark hcolon fun _ =>
      .found (hr.statement rfl hbody (by omega)) fun body' _ hbare => .spanned fun _ =>
        .pure ⟨rfl, ?_⟩) fun hno => absurd hsecond hno)
    simp only [Stmt.bare, hbare]
  | exprStmt hopens he hstops hclose =>
    exact statement_of_expression hopens fun start =>
      expressionStatement_finds hts hsound hr he hstops hclose hd
  | blockStmt hbody =>
    have hk : (rd.nextAt i).kind = .punct .lBrace := of_decide_eq_true hbody.opens
    unfold statement
    refine .peek ?_
    simp only [hk]
    exact .found (block_finds hr hbody hd) fun _ _ hbare => .spanned fun _ =>
      .pure ⟨rfl, congrArg (Stmt.block .nowhere) hbare⟩
  | empty hread =>
    have hk : (rd.nextAt i).kind = .punct .semicolon := hread.1
    unfold statement
    refine .peek ?_
    simp only [hk]
    exact .takeAt hread fun _ => .spanned fun _ => .pure ⟨rfl, rfl⟩
  | throw hword hbreak he hstops hclose =>
    refine statement_of_keyword hword.1 fun start => .takeAt hword fun _ => .newlineBefore ?_
    rw [hbreak]
    exact .no (.found (expression_finds hr he ⟨.of_closes hclose, hstops⟩ .refl (by omega))
      fun _ _ hbare => .close hclose fun _ => .spanned fun _ =>
        .pure ⟨rfl, congrArg (Stmt.throw .nowhere) hbare⟩)
  | switch hword => exact statement_of_keyword hword.1 fun _ => switchStatement_finds hr h hd
  | tryCatch hword | tryFinally hword | tryCatchFinally hword =>
    exact statement_of_keyword hword.1 fun _ => tryStatement_finds hr h rfl hd
  | vars hread hkind hds hclose => exact varsDecl_finds hr hread hkind hds hclose hd
  | classDecl hname hclass =>
    refine statement_of_keyword (of_decide_eq_true hclass.opens) fun start => .found
      (classParts_finds hr hclass (fun _ => hname) .refl hd) ?_
    rintro parts _ ⟨rfl, hparent, hmembers⟩
    refine .spanned fun _ => .pure ⟨rfl, ?_⟩
    simp only [Stmt.bare, Declaration.bare, hparent, hmembers]
  | functionDecl hname hf => exact functionDecl_finds hr hf hname hd
  | doWhile hword hbody hwhile he hclose =>
    refine statement_of_keyword hword.1 fun start => .takeAt hword fun _ => .found
      (hr.statement rfl hbody (by omega)) fun body' _ hbare => .readKeyword hwhile fun _ =>
        .found (condition_finds hr he (by omega)) fun e' _ hbare' => .mayEat hclose fun _ =>
          .spanned fun _ => .pure ⟨rfl, ?_⟩
    simp only [Stmt.bare, hbare, hbare']
  | whileLoop hword he hbody =>
    refine statement_of_keyword hword.1 fun start => .takeAt hword fun _ => .found
      (condition_finds hr he (by omega)) fun e' _ hbare => .found
        (hr.statement rfl hbody (by omega)) fun body' _ hbare' => .spanned fun _ => .pure ⟨rfl, ?_⟩
    simp only [Stmt.bare, hbare, hbare']
  | ifElse hword he hyes helse hno =>
    refine statement_of_keyword hword.1 fun start => .takeAt hword fun _ => .found
      (condition_finds hr he (by omega)) fun e' _ hbare => .found
        (hr.statement rfl hyes (by omega)) fun yes' _ hbareYes => .eats helse fun _ => .yes
          (.found (hr.statement rfl hno (by omega)) fun no' _ hbareNo => .spanned fun _ =>
            .pure ⟨rfl, ?_⟩)
    simp only [Stmt.bare, hbare, hbareYes, hbareNo]
  | ifThen hword he hyes helse =>
    refine statement_of_keyword hword.1 fun start => .takeAt hword fun _ => .found
      (condition_finds hr he (by omega)) fun e' _ hbare => .found
        (hr.statement rfl hyes (by omega)) fun yes' _ hbareYes => .leaves helse (.no
          (.spanned fun _ => .pure ⟨rfl, ?_⟩))
    simp only [Stmt.bare, hbare, hbareYes]
  | forIn hword | forOf hword =>
    exact statement_of_keyword hword.1 fun _ => forStatement_each hr h rfl hd
  | forLoop hword hopen hinit hsemi =>
    exact statement_of_keyword hword.1 fun _ => .bind (.attempt
      (.mono (forEach_stuck hsound hr hword hopen hinit hsemi hd) nofun) (forCount_finds hr h hd))
  | ret hword | retNothing hword => exact statement_of_keyword hword.1 fun _ => return_finds hr h hd
  | breakTo hword hbreak hlabel hclose | continueTo hword hbreak hlabel hclose =>
    exact statement_of_keyword hword.1 fun start => .takeAt hword fun _ =>
      jumpTo_finds (fun _ _ => rfl) hbreak hlabel hclose
  | breakOut hword hclose | continueOn hword hclose =>
    exact statement_of_keyword hword.1 fun start => .takeAt hword fun _ =>
      jumpOut_finds (fun _ _ => rfl) hclose
  | debugger hword hclose =>
    exact statement_of_keyword hword.1 fun start => .takeAt hword fun _ =>
      .close hclose fun _ => .spanned fun _ => .pure ⟨rfl, rfl⟩
  | importOnly hword | importFrom hword =>
    exact statement_of_keyword hword.1 fun _ => importStatement_finds h
  | exportDefault hword | exportAll hword | exportNames hword | exportFrom hword
  | exportDecl hword =>
    exact statement_of_keyword hword.1 fun _ => exportStatement_finds hr h rfl hd

end

end

theorem Complete.produce {ts : Stream} [ts.Ended] {d : Nat} {r : Rules}
    (hts : ts.remembers = false) (hsound : ∀ rd : Reading, rd = ts → Sound rd (Guarded rd) d r)
    (hr : Complete ts d r) : Complete ts (d + 1) (produce r) where
  assignment := by
    rintro rd E cx cx' e i j rfl h hlevel hends hfits hd
    exact assignment_finds hts (hsound rd rfl) hr h hlevel hends hfits hd
  unary := by
    rintro rd E cx cx' e i j rfl h hlevel hstops hfits hd
    exact unary_finds hr h hlevel hstops hfits hd
  operand := by
    rintro rd E cx cx' e i j rfl h hlevel htail hfits hd
    exact operand_finds hr h hlevel htail hfits hd
  construct := by
    rintro rd E cx cx' e i j rfl h hnew hfits hd
    exact construct_finds hr h hnew hfits hd
  pattern := by
    rintro rd E cx cx' b i j rfl h hfits hd
    exact pattern_finds hr h hfits hd
  cover := by
    rintro rd cx cx' e i j rfl h hlevel hd
    exact pattern_covers hr h hlevel hd
  statement := by
    rintro rd E cx st i j rfl h hd
    exact statement_finds hts (hsound rd rfl) hr h hd

end Grammar
end ScriptBundler
