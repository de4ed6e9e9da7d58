import ScriptBundler.Proofs.AssignmentCompleteness

/-!
# Statements are found

Imports, exports and statements.  Only a loop over the items of a value is tried
before another reading: where a counting loop stands, no `in` and no `of` follows
what could be its variable.
-/

namespace ScriptBundler
namespace Grammar

open Grammar.Parser

variable {xs : List ImportSpecifier} {sp : Span} {e : Expr} {i₁ i₂ start : Nat} {st : Stmt}
  {init : ForInit}

section
variable {rd : Reading} [rd.Ended] {E : Failure → Prop} {i j d : Nat} {r : Rules} {cx : Context}

theorem importSpecifier_finds {x : ImportSpecifier} (h : Spells rd (.item cx .importName x) i j) :
    Runs rd E importSpecifier i (Finds ImportSpecifier.bare x j) := by
  refine .here ?_
  cases h with
  | imported hname htext htake has =>
    refine .readAny hname htake fun _ => .leavesWord has (.no (.bind (.pure
      (.spanned fun _ => .pure ⟨rfl, ?_⟩))))
    simp only [ImportSpecifier.bare, htext]
  | importedAs hname htext htake has hlocal hlocalText hlocalTake =>
    refine .readAny hname htake fun _ => .eatsWord has fun _ => .yes
      (.readVariable hlocal hlocalTake fun _ => .spanned fun _ => .pure ⟨rfl, ?_⟩)
    simp only [ImportSpecifier.bare, htext, hlocalText]

theorem importList_finds (h : Spells rd (.importList xs) i j) :
    Runs rd E importList i (Finds (List.map ImportSpecifier.bare) xs j) := by
  refine .here ?_
  cases h with
  | importAll hstar has hname htext htake =>
    refine .eats hstar fun _ => .yes (.readWord has fun _ => .readVariable hname htake fun _ =>
      .spanned fun _ => .pure ⟨rfl, ?_⟩)
    simp only [List.map_cons, List.map_nil, ImportSpecifier.bare, htext]
  | importNames hopen hxs =>
    exact .leaves (by rw [hopen.1]; exact nofun) (.no (.readMark hopen fun _ =>
      .list_finds hxs (fun _ => rfl) fun hx _ _ => importSpecifier_finds hx))

theorem importClause_finds (h : Spells rd (.importClause xs) i j) :
    Runs rd E importClause i (Finds (List.map ImportSpecifier.bare) xs j) := by
  refine .peekKind ?_
  cases h with
  | clauseDefault hname htext htake hcomma =>
    refine .ite (fun _ => .here (.readVariable hname htake fun _ => .spanned fun _ =>
      .leaves hcomma (.no (.pure ⟨rfl, ?_⟩)))) fun hno => absurd hname hno
    simp only [List.map_cons, List.map_nil, ImportSpecifier.bare, htext]
  | clauseBoth hname htext htake hcomma hrest =>
    refine .ite (fun _ => .here (.readVariable hname htake fun _ => .spanned fun _ =>
      .eats hcomma fun _ => .yes (.found (importList_finds hrest) fun rest' _ hbare =>
        .pure ⟨rfl, ?_⟩))) fun hno => absurd hname hno
    simp only [List.map_cons, ImportSpecifier.bare, htext, hbare]
  | clauseList hxs =>
    refine .ite (fun hname => ?_) fun _ => importList_finds hxs
    have hopens := hxs.opens
    rw [Phrase.opens, Bool.or_eq_true, decide_eq_true_eq, decide_eq_true_eq] at hopens
    rcases hopens with hk | hk <;> rw [hk] at hname <;> cases hname

omit [rd.Ended] in
theorem Derives.importClause_opens (h : Spells rd (.importClause xs) i j) :
    rd.kindAt i ≠ .stringQuote := by
  intro hk
  cases h with
  | clauseDefault hname | clauseBoth hname =>
    rw [hk] at hname
    cases hname
  | clauseList hxs =>
    have hopens := hxs.opens
    rw [hk] at hopens
    cases hopens

theorem importStatement_finds {source : String} {specifiers : List ImportSpecifier}
    (h : Spells rd (.stmt cx (.importFrom sp source specifiers)) i j) :
    Runs rd E importStatement i (Finds Stmt.bare (.importFrom sp source specifiers) j) := by
  refine .here ?_
  have hrest : ∀ {specifiers' i₁ i₂ start}, specifiers'.map ImportSpecifier.bare =
      specifiers.map ImportSpecifier.bare → rd.StringAt source i₁ i₂ → rd.Closes i₂ j →
      Runs rd E (do
        let source ← expectString
        semicolon
        return Stmt.importFrom (← spanFrom start) source specifiers') i₁
        (Finds Stmt.bare (.importFrom sp source specifiers) j) := by
    intro specifiers' i₁ i₂ start hbare hstring hclose
    refine .found (expectString_finds hstring) fun source' _ hsource => .close hclose fun _ =>
      .spanned fun _ => .pure ⟨rfl, ?_⟩
    obtain rfl : source' = source := hsource
    simp only [Stmt.bare, hbare]
  cases h with
  | importOnly hword hstring hclose =>
    exact .readKeyword hword fun _ => .sees hstring.1 (.yes (.bind (.pure
      (hrest rfl hstring hclose))))
  | importFrom hword hclause hfrom hstring hclose =>
    exact .readKeyword hword fun _ => .misses hclause.importClause_opens (.no
      (.found (importClause_finds hclause) fun _ _ hbare => .readWord hfrom fun _ =>
        .bind (.pure (hrest hbare hstring hclose))))

theorem exportSpecifier_finds {x : ExportSpecifier} (h : Spells rd (.item cx .exportName x) i j) :
    Runs rd E exportSpecifier i (Finds ExportSpecifier.bare x j) := by
  refine .here ?_
  cases h with
  | exportedName hname htext htake has =>
    refine .readAny hname htake fun _ => .leavesWord has (.no (.bind (.pure
      (.spanned fun _ => .pure ⟨rfl, ?_⟩))))
    simp only [ExportSpecifier.bare, htext]
  | exportedAs hname htext htake has hexported hexportedText hexportedTake =>
    refine .readAny hname htake fun _ => .eatsWord has fun _ => .yes
      (.readAny hexported hexportedTake fun _ => .spanned fun _ => .pure ⟨rfl, ?_⟩)
    simp only [ExportSpecifier.bare, htext, hexportedText]

theorem exportedDefault_finds (hr : Complete rd d r) (h : Spells rd (.exported cx e) i j)
    (hd : rd.tokens.size ≤ i + d) : Runs rd E (exportedDefault r cx) i (Finds Expr.bare e j) := by
  unfold exportedDefault
  refine .here (.peekKind ?_)
  cases h with
  | exportedFunc hf =>
    cases hf with
    | func hasync hf =>
      have hk : rd.kindAt i = .keyword .kwFunction := of_decide_eq_true hf.opens
      rw [hk]
      exact .found (function_finds hr hf hasync (fun h : false = true => nomatch h) (by omega))
        fun _ _ hbare => .spanned fun _ => .pure ⟨rfl, congrArg (Expr.function .nowhere) hbare⟩
    | asyncFunc hasync hword hf =>
      have hsecond : rd.kindAt (rd.past i) = .keyword .kwFunction :=
        hword.2.1 ▸ of_decide_eq_true hf.opens
      rw [hword.1]
      exact .peekSecondKind (.ite (fun _ => .takeAt hword fun _ => .found
        (function_finds hr hf hasync (fun h : false = true => nomatch h) (by omega))
        fun _ _ hbare => .spanned fun _ => .pure ⟨rfl, congrArg (Expr.function .nowhere) hbare⟩)
        fun hno => absurd ⟨rfl, hsecond⟩ hno)
  | exportedClass hclass =>
    have hk : rd.kindAt i = .keyword .kwClass := of_decide_eq_true hclass.opens
    rw [hk]
    refine .found
      (classParts_finds hr hclass (fun h : false = true => nomatch h) .refl (by omega)) ?_
    rintro parts _ ⟨hname, hparent, hmembers⟩
    refine .spanned fun _ => .pure ⟨rfl, ?_⟩
    simp only [Expr.bare, hname, hparent, hmembers]
  | exportedValue hfunction hclass hasync he hlevel hstops hclose =>
    have hvalue : Runs rd E (do
        let value ← r.assignment cx
        semicolon
        return value) i (Finds Expr.bare e j) :=
      .found (hr.assignment rfl he hlevel ⟨.of_closes hclose, hstops⟩ .refl hd) fun _ _ hbare =>
        .close hclose fun _ => .pure ⟨rfl, hbare⟩
    split
    · exact absurd (by assumption) hfunction
    · exact absurd (by assumption) hclass
    · exact .peekSecondKind (.ite (fun h => absurd h hasync) fun _ => hvalue)

omit [rd.Ended] in
theorem Derives.declaration_opens {decl : Declaration} (h : Spells rd (.stmt cx (.decl decl)) i j) :
    rd.kindAt i ∈ [Keyword.kwVar, .kwLet, .kwConst, .kwFunction, .kwClass, .kwAsync].map
      Token.Kind.keyword := by
  cases h with
  | vars hread hkind =>
    rw [hread.1]
    unfold VarKind.ofKind? at hkind
    split at hkind
    all_goals first | decide | cases hkind
  | classDecl _ hclass =>
    rw [of_decide_eq_true hclass.opens]
    decide
  | functionDecl _ hf =>
    rcases hf.func_kind with hk | hk <;> rw [hk] <;> decide

omit [rd.Ended] in
theorem exportedDecl_finds {decl : Declaration} {start : Nat} (hr : Complete rd d r)
    (h : Spells rd (.stmt cx (.decl decl)) i j) (hd : rd.tokens.size ≤ i + d) :
    Runs rd E (do
      match ← r.statement cx with
      | .decl value => return .exportDecl (← spanFrom start) value
      | _ => unexpectedAt (← rawPeek)) i (Finds Stmt.bare (.exportDecl sp decl) j) := by
  refine .found (hr.statement rfl h hd) fun st _ hbare => ?_
  cases st with
  | decl value =>
    have hvalue : value.bare = decl.bare := Stmt.decl.inj hbare
    refine .spanned fun _ => .pure ⟨rfl, ?_⟩
    simp only [Stmt.bare, hvalue]
  | _ => cases hbare

theorem exportDecl_finds {decl : Declaration} (hr : Complete rd d r)
    (h : Spells rd (.stmt cx (.exportDecl sp decl)) i j) (hd : rd.tokens.size ≤ i + d + 1) :
    Runs rd E (exportStatement r cx) i (Finds Stmt.bare (.exportDecl sp decl) j) := by
  cases h with
  | exportDecl hword hdecl =>
    unfold exportStatement
    refine .here (.readKeyword hword fun _ => .peekKind ?_)
    have hopens := hdecl.declaration_opens
    simp only [List.map_cons, List.map_nil, List.mem_cons, List.not_mem_nil, or_false] at hopens
    rcases hopens with hk | hk | hk | hk | hk | hk <;> rw [hk] <;>
      exact exportedDecl_finds hr hdecl (by omega)

theorem exportList_finds {specifiers : List ExportSpecifier} {Q : Stmt → Nat → Prop}
    (hword : rd.Reads (.keyword .kwExport) i i₁) (hopen : rd.Reads (.punct .lBrace) i₁ i₂)
    (h : Spells rd (.items .top .exportName specifiers) i₂ j)
    (hrest : ∀ start specifiers',
      specifiers'.map ExportSpecifier.bare = specifiers.map ExportSpecifier.bare →
      Runs rd E (do
        let source ← if ← eatWord "from" then some <$> expectString else pure none
        semicolon
        return .exportNamed (← spanFrom start) source specifiers') j Q) :
    Runs rd E (exportStatement r cx) i Q := by
  unfold exportStatement
  refine .here (.readKeyword hword fun _ => .peekKind ?_)
  rw [hopen.1]
  exact .takeAt hopen fun _ => .found (.list_finds h (fun _ => rfl) fun hx _ _ =>
    exportSpecifier_finds hx) fun specifiers' _ => hrest _ specifiers'

def exports : Stmt → Bool
  | .exportDefault _ _ | .exportAll _ _ | .exportNamed _ _ _ | .exportDecl _ _ => true
  | _ => false

section
variable (hr : Complete rd d r)
include hr

theorem exportStatement_finds (h : Spells rd (.stmt cx st) i j) (hexports : exports st = true)
    (hd : rd.tokens.size ≤ i + d + 1) :
    Runs rd E (exportStatement r cx) i (Finds Stmt.bare st j) := by
  have hspells := h
  cases hspells with
  | exportDecl => exact exportDecl_finds hr h hd
  | exportDefault hword hdefault he =>
    unfold exportStatement
    refine .here (.readKeyword hword fun _ => .peekKind ?_)
    rw [hdefault.1]
    exact .takeAt hdefault fun _ => .found (exportedDefault_finds hr he (by omega))
      fun _ _ hbare => .spanned fun _ => .pure ⟨rfl, congrArg (Stmt.exportDefault .nowhere) hbare⟩
  | exportAll hword hstar hfrom hstring hclose =>
    unfold exportStatement
    refine .here (.readKeyword hword fun _ => .peekKind ?_)
    rw [hstar.1]
    exact .takeAt hstar fun _ => .readWord hfrom fun _ => .found (expectString_finds hstring)
      fun _ _ hsource => .close hclose fun _ => .spanned fun _ =>
        .pure ⟨rfl, congrArg (Stmt.exportAll .nowhere) hsource⟩
  | exportNames hword hopen hspecifiers hfrom hclose =>
    refine exportList_finds hword hopen hspecifiers fun start specifiers' hbare =>
      .leavesWord hfrom (.no (.bind (.pure (.close hclose fun _ => .spanned fun _ =>
        .pure ⟨rfl, ?_⟩))))
    simp only [Stmt.bare, hbare]
  | exportFrom hword hopen hspecifiers hfrom hstring hclose =>
    refine exportList_finds hword hopen hspecifiers fun start specifiers' hbare =>
      .eatsWord hfrom fun _ => .yes (.bind (.map ((expectString_finds hstring).mono ?_)))
    rintro source' _ _ ⟨rfl, rfl⟩
    refine .close hclose fun _ => .spanned fun _ => .pure ⟨rfl, ?_⟩
    simp only [Stmt.bare, hbare, id]
  | _ => cases hexports

theorem condition_finds (h : Spells rd (.condition cx e) i j) (hd : rd.tokens.size ≤ i + d + 1) :
    Runs rd E (condition r cx) i (Finds Expr.bare e j) := by
  cases h with
  | condition hopen he hclose =>
    exact .readMark hopen fun _ => .found
      (expression_finds hr he (.of_reads hclose (by decide)) .refl (by omega)) fun _ _ hbare =>
        .readMark hclose fun _ => .pure ⟨rfl, hbare⟩

theorem declarator_finds {x : Declarator} (h : Spells rd (.decl cx x) i j) (hquiet : Quiet rd j)
    (hd : rd.tokens.size ≤ i + d) : Runs rd E (declarator r cx) i (Finds Declarator.bare x j) := by
  cases h with
  | decl hb hv =>
    refine .here (.found (hr.pattern rfl hb .refl hd) fun b' _ hbare => ?_)
    cases hv with
    | noValue hno =>
      refine .leaves hno (.no (.bind (.pure (.spanned fun _ => .pure ⟨rfl, ?_⟩))))
      simp only [Declarator.bare, hbare]
    | value hread he hlevel hstops =>
      refine .eats hread fun _ => .yes (.bind (.map
        ((hr.assignment rfl he hlevel ⟨hquiet, hstops⟩ .refl (by omega)).mono ?_)))
      rintro e' _ _ ⟨rfl, hbare'⟩
      refine .spanned fun _ => .pure ⟨rfl, ?_⟩
      simp only [Declarator.bare, Expr.optionBare, hbare, hbare']

theorem declarators_finds {ds : List Declarator} (h : Spells rd (.decls cx ds) i j)
    (hquiet : Quiet rd j) (hd : rd.tokens.size ≤ i + d) :
    Runs rd E (declarators r cx) i (Finds Declarator.listBare ds j) := by
  have hfirst : ∀ {ds i₁}, Spells rd (.decls cx ds) i₁ j → ∃ x rest i₂, ds = x :: rest ∧
      Spells rd (.decl cx x) i₁ i₂ ∧ Quiet rd i₂ ∧
      (rest = [] ∧ i₂ = j ∧ rd.kindAt j ≠ .punct .comma ∨
        ∃ i₃, rd.Reads (.punct .comma) i₂ i₃ ∧ Spells rd (.decls cx rest) i₃ j) := by
    intro ds i₁ hds
    cases hds with
    | lastDecl hx hcomma => exact ⟨_, [], _, rfl, hx, hquiet, .inl ⟨rfl, rfl, hcomma⟩⟩
    | moreDecls hx hread hrest =>
      exact ⟨_, _, _, rfl, hx, .of_endsYield (by rw [hread.1]; rfl), .inr ⟨_, hread, hrest⟩⟩
  obtain ⟨x, rest, i₂, rfl, hx, hquiet₂, hrest⟩ := hfirst h
  refine .found (declarator_finds hr hx hquiet₂ hd) fun x' hle hbare => .bind (.mono
    (.collect_finds Declarator.bare Declarator.bare (fun rest k =>
      rest = [] ∧ k = j ∧ rd.kindAt j ≠ .punct .comma ∨
        ∃ i₃, rd.Reads (.punct .comma) k i₃ ∧ Spells rd (.decls cx rest) i₃ j)
      (· = j) hrest ?_) ?_)
  · rintro rest k hle' (⟨rfl, rfl, hcomma⟩ | ⟨i₃, hread, hds⟩)
    · exact .leaves hcomma (.no (.pure ⟨rfl, rfl⟩))
    · obtain ⟨y, more, i₄, rfl, hy, hquiet₄, hmore⟩ := hfirst hds
      exact .eats hread fun _ => .yes (.found (declarator_finds hr hy hquiet₄ (by omega))
        fun _ _ hbare' => .pure ⟨by omega, _, _, rfl, hbare', hmore⟩)
  · rintro rest' _ _ ⟨rfl, hbare'⟩
    refine .pure ⟨rfl, ?_⟩
    simp only [Declarator.listBare, Declarator.listBare_eq_map, hbare, hbare']

omit hr in
theorem varKind_finds {k : Token.Kind} {kind : VarKind} (hread : rd.Reads k i j)
    (hkind : VarKind.ofKind? k = some kind) : Runs rd E varKind i (Finds id kind j) := by
  have hend : rd.kindAt i ≠ .endOfInput := by
    rw [hread.1]
    rintro rfl
    cases hkind
  have hk : (rd.nextAt i).kind = k := hread.1
  refine .take hread.2 hend fun _ => ?_
  rw [hk, hkind]
  exact .pure ⟨rfl, rfl⟩

theorem switchCase_finds {c : SwitchCase} (h : Spells rd (.case cx c) i j)
    (hd : rd.tokens.size ≤ i + d + 1) :
    Runs rd E (switchCase r cx) i (Finds SwitchCase.bare c j) := by
  refine .here ?_
  cases h with
  | testCase hword he hcolon hbody =>
    refine .eats hword fun _ => .yes (.bind (.map ((expression_finds hr he
      (.of_reads hcolon (by decide)) .refl (by omega)).mono ?_)))
    rintro e' _ _ ⟨rfl, hbare⟩
    refine .readMark hcolon fun _ => .found (statementsUntil_finds hr hbody (by omega))
      fun body' _ hbare' => .spanned fun _ => .pure ⟨rfl, ?_⟩
    simp only [SwitchCase.bare, Expr.optionBare, hbare, hbare']
  | defaultCase hword hcolon hbody =>
    refine .leaves (by rw [hword.1]; exact nofun) (.no (.readKeyword hword fun _ => .bind (.pure
      (.readMark hcolon fun _ => .found (statementsUntil_finds hr hbody (by omega))
        fun body' _ hbare => .spanned fun _ => .pure ⟨rfl, ?_⟩))))
    simp only [SwitchCase.bare, hbare]

omit hr [rd.Ended] in
theorem Derives.case_opens {c : SwitchCase} (h : Spells rd (.case cx c) i j) :
    rd.kindAt i ≠ .punct .rBrace := by
  cases h with
  | testCase hword | defaultCase hword =>
    rw [hword.1]
    exact nofun

theorem switchStatement_finds {cs : List SwitchCase}
    (h : Spells rd (.stmt cx (.switch sp e cs)) i j) (hd : rd.tokens.size ≤ i + d + 1) :
    Runs rd E (switchStatement r cx start) i (Finds Stmt.bare (.switch sp e cs) j) := by
  cases h with
  | switch hword he hopen hcs =>
    refine .readKeyword hword fun _ => .found (condition_finds hr he (by omega)) fun e' _ hbare =>
      .readMark hopen fun _ => .bind (.mono (.collect_finds SwitchCase.bare SwitchCase.bare
        (fun rest k => Spells rd (.cases cx rest) k j) (· = j) hcs ?_) ?_)
    · rintro rest k hle hrest
      cases hrest with
      | noCases hclose => exact .eats hclose fun _ => .yes (.pure ⟨rfl, rfl⟩)
      | moreCases hc hmore =>
        exact .leaves hc.case_opens (.no (.found (switchCase_finds hr hc (by omega))
          fun _ _ hbare' => .pure ⟨hc.lt rfl, _, _, rfl, hbare', hmore⟩))
    · rintro cs' _ _ ⟨rfl, hbare'⟩
      refine .spanned fun _ => .pure ⟨rfl, ?_⟩
      simp only [Stmt.bare, SwitchCase.listBare_eq_map, hbare, hbare']

theorem handler_finds {param : Option Binding} {body : List Stmt}
    (h : Spells rd (.handler cx param body) i j) (hd : rd.tokens.size ≤ i + d + 1) :
    Runs rd E (handler r cx) i fun handler k => k = j ∧
      Binding.optionBare handler.param = Binding.optionBare param ∧
        Stmt.listBare handler.body = Stmt.listBare body := by
  refine .here ?_
  cases h with
  | handler hword hopen hb hclose hbody =>
    exact .readKeyword hword fun _ => .eats hopen fun _ => .yes (.found
      (hr.pattern rfl hb .refl (by omega)) fun _ _ hbare => .readMark hclose fun _ =>
        .bind (.pure (.found (block_finds hr hbody (by omega)) fun _ _ hbare' =>
          .spanned fun _ => .pure ⟨rfl, congrArg some hbare, hbare'⟩)))
  | bareHandler hword hbody =>
    have hopen := of_decide_eq_true hbody.opens
    exact .readKeyword hword fun _ => .leaves (by rw [hopen]; exact nofun) (.no (.bind (.pure
      (.found (block_finds hr hbody (by omega)) fun _ _ hbare => .spanned fun _ =>
        .pure ⟨rfl, rfl, hbare⟩))))

end

omit [rd.Ended] in
theorem Derives.handler_opens {param : Option Binding} {body : List Stmt}
    (h : Spells rd (.handler cx param body) i j) : rd.kindAt i = .keyword .kwCatch := by
  cases h with
  | handler hword | bareHandler hword => exact hword.1

def tries : Stmt → Bool
  | .tryCatch _ _ _ _ _ | .tryFinally _ _ _ | .tryCatchFinally _ _ _ _ _ _ => true
  | _ => false

theorem tryStatement_finds (hr : Complete rd d r) (h : Spells rd (.stmt cx st) i j)
    (htries : tries st = true) (hd : rd.tokens.size ≤ i + d + 1) :
    Runs rd E (tryStatement r cx start) i (Finds Stmt.bare st j) := by
  cases h with
  | tryCatch hword hbody hhandler hno =>
    refine .readKeyword hword fun _ => .found (block_finds hr hbody (by omega)) fun body' _ hbare =>
      .sees hhandler.handler_opens (.yes (.bind (.map
        ((handler_finds hr hhandler (by omega)).mono ?_))))
    rintro handler' _ _ ⟨rfl, hparam, hbody'⟩
    refine .leaves hno (.no (.bind (.pure (.spanned fun _ => .pure ⟨rfl, ?_⟩))))
    simp only [Stmt.bare, hbare, hparam, hbody']
  | tryFinally hword hbody hfinally hfinalizer =>
    refine .readKeyword hword fun _ => .found (block_finds hr hbody (by omega)) fun body' _ hbare =>
      .misses (by rw [hfinally.1]; exact nofun) (.no (.bind (.pure (.eats hfinally fun _ =>
        .yes (.bind (.map ((block_finds hr hfinalizer (by omega)).mono ?_)))))))
    rintro finalizer' _ _ ⟨rfl, hbare'⟩
    refine .spanned fun _ => .pure ⟨rfl, ?_⟩
    simp only [Stmt.bare, hbare, hbare']
  | tryCatchFinally hword hbody hhandler hfinally hfinalizer =>
    refine .readKeyword hword fun _ => .found (block_finds hr hbody (by omega)) fun body' _ hbare =>
      .sees hhandler.handler_opens (.yes (.bind (.map
        ((handler_finds hr hhandler (by omega)).mono ?_))))
    rintro handler' _ _ ⟨rfl, hparam, hbody'⟩
    refine .eats hfinally fun _ => .yes (.bind (.map
      ((block_finds hr hfinalizer (by omega)).mono ?_)))
    rintro finalizer' _ _ ⟨rfl, hbare'⟩
    refine .spanned fun _ => .pure ⟨rfl, ?_⟩
    simp only [Stmt.bare, hbare, hparam, hbody', hbare']
  | _ => cases htries

theorem noVarKind_of_startsExpr {k : Token.Kind} (h : startsExpr k = true) :
    (VarKind.ofKind? k).isSome = false := by
  refine Bool.eq_false_iff.mpr fun hsome => ?_
  unfold VarKind.ofKind? at hsome
  split at hsome
  all_goals first | cases h | cases hsome

def forRest (r : Rules) (cx : Context) (start : Nat) (left : ForInit) : Parser Stmt := do
  if ← eatKeyword .kwIn then
    let right ← expression r cx.allowIn
    expectMark .rParen
    let body ← r.statement cx
    return .forIn (← spanFrom start) left right body
  else
    expectWord "of"
    let right ← r.assignment cx.allowIn
    expectMark .rParen
    let body ← r.statement cx
    return .forOf (← spanFrom start) left right body

theorem forLeft_finds {left : ForInit} {Q : Stmt → Nat → Prop} (hr : Complete rd d r)
    (hword : rd.Reads (.keyword .kwFor) i i₁) (hopen : rd.Reads (.punct .lParen) i₁ i₂)
    (h : Spells rd (.forLeft cx left) i₂ j) (hd : rd.tokens.size ≤ i + d + 1)
    (hrest : ∀ left', i < j → left'.bare = left.bare → Runs rd E (forRest r cx start left') j Q) :
    Runs rd E (forEach r cx start) i Q := by
  refine .readKeyword hword fun _ => .readMark hopen fun _ => .peekKind ?_
  cases h with
  | leftVars hread hkind hb =>
    rw [hread.1, hkind]
    refine .yes (.found (varKind_finds hread hkind) ?_)
    rintro _ _ rfl
    refine .here (.found (hr.pattern rfl hb .refl (by omega)) fun b' _ hbare => .spanned fun _ =>
      .bind (.pure (hrest _ (by omega) ?_)))
    simp only [ForInit.bare, Declarator.listBare, Declarator.bare, Expr.optionBare, hbare, id]
  | leftPattern hb =>
    rw [noVarKind_of_startsExpr (startsExpr_of_startsBinding hb.opens)]
    refine .no (.bind (.map ((hr.pattern rfl hb .refl (by omega)).mono ?_)))
    rintro b' _ _ ⟨rfl, hbare⟩
    refine hrest _ (by omega) ?_
    simp only [ForInit.bare, hbare]

def iterates : Stmt → Bool
  | .forIn _ _ _ _ | .forOf _ _ _ _ => true
  | _ => false

theorem forEach_finds (hr : Complete rd d r) (h : Spells rd (.stmt cx st) i j)
    (hloops : iterates st = true) (hd : rd.tokens.size ≤ i + d + 1) :
    Runs rd E (forEach r cx start) i (Finds Stmt.bare st j) := by
  cases h with
  | forIn hword hopen hleft hin he hclose hbody =>
    refine forLeft_finds hr hword hopen hleft hd fun left' hlt hbare => .eats hin fun _ => .yes
      (.found (expression_finds hr he (.of_reads hclose (by decide)) .refl (by omega))
        fun e' _ hbare₂ => .readMark hclose fun _ => .found (hr.statement rfl hbody (by omega))
          fun body' _ hbare₃ => .spanned fun _ => .pure ⟨rfl, ?_⟩)
    simp only [Stmt.bare, hbare, hbare₂, hbare₃]
  | forOf hword hopen hleft hof he hlevel hclose hbody =>
    refine forLeft_finds hr hword hopen hleft hd fun left' hlt hbare =>
      .leaves (by rw [hof.1.1]; exact nofun) (.no (.readWord hof fun _ => .found
        (hr.assignment rfl he hlevel (.of_endsYield (by rw [hclose.1]; rfl)) .refl (by omega))
        fun e' _ hbare₂ => .readMark hclose fun _ => .found (hr.statement rfl hbody (by omega))
          fun body' _ hbare₃ => .spanned fun _ => .pure ⟨rfl, ?_⟩))
    simp only [Stmt.bare, hbare, hbare₂, hbare₃]
  | _ => cases hloops

theorem forRest_stuck {left : ForInit} (hsound : Sound rd (Guarded rd) d r)
    (hin : rd.kindAt i ≠ .keyword .kwIn)
    (hof : rd.kindAt i = .identifier → rd.kindAt (rd.past i) = .punct .arrow)
    (hd : rd.tokens.size ≤ i + d) : Meets rd (forRest r cx start left) i fun _ _ => False := by
  refine .leaves hin (.no (.expectWord fun i₁ hword _ =>
    (hsound.assignment (by omega)).next fun _ _ _ h => ?_))
  have hk : rd.kindAt i₁ = .punct .arrow := hword.1.2.1 ▸ hof hword.1.1
  have hopens := h.1.opens
  rw [hk] at hopens
  cases hopens

omit [rd.Ended] in
theorem Derives.first_assignment (h : Spells rd (.expr cx e) i j)
    (hends : endsYield (rd.kindAt j) = true) :
    ∃ first m, Spells rd (.expr cx first) i m ∧ Level.assignment ≤ first.level ∧
      endsYield (rd.kindAt m) = true := by
  by_cases hsequence : ∃ span items, e = .sequence span items
  · obtain ⟨span, items, rfl⟩ := hsequence
    cases h with
    | sequence hfirst hlevel hothers =>
      refine ⟨_, _, hfirst, hlevel, ?_⟩
      cases hothers with
      | other hread | moreOthers hread =>
        rw [hread.1]
        rfl
  · exact ⟨e, j, h, assignment_le_level fun span items he => hsequence ⟨span, items, he⟩, hends⟩

omit [rd.Ended] in
theorem Derives.first_binding {ds : List Declarator} (h : Spells rd (.decls cx ds) i j)
    (hends : endsYield (rd.kindAt j) = true) :
    ∃ b m, Spells rd (.binding cx.allowIn b) i m ∧
      (endsYield (rd.kindAt m) = true ∨ rd.kindAt m = .punct .eq) := by
  have hfirst : ∀ {x i₁}, Spells rd (.decl cx x) i i₁ → endsYield (rd.kindAt i₁) = true →
      ∃ b m, Spells rd (.binding cx.allowIn b) i m ∧
        (endsYield (rd.kindAt m) = true ∨ rd.kindAt m = .punct .eq) := by
    intro x i₁ hx hends
    cases hx with
    | decl hb hv =>
      refine ⟨_, _, hb, ?_⟩
      cases hv with
      | noValue => exact .inl hends
      | value hread => exact .inr hread.1
  cases h with
  | lastDecl hx => exact hfirst hx hends
  | moreDecls hx hread => exact hfirst hx (by rw [hread.1]; rfl)

theorem forEach_stuck {i₁ i₂ i₃ start : Nat}
    (hsound : Sound rd (Guarded rd) d r) (hr : Complete rd d r)
    (hword : rd.Reads (.keyword .kwFor) i i₁) (hopen : rd.Reads (.punct .lParen) i₁ i₂)
    (h : Spells rd (.forInit cx init) i₂ i₃) (hsemi : rd.Reads (.punct .semicolon) i₃ j)
    (hd : rd.tokens.size ≤ i + d + 1) : Meets rd (forEach r cx start) i fun _ _ => False := by
  have hends : endsYield (rd.kindAt i₃) = true := by
    rw [hsemi.1]
    rfl
  have hmark : ∀ {left : ForInit} {k}, i < k →
      (endsYield (rd.kindAt k) = true ∨ rd.kindAt k = .punct .eq) →
      Meets rd (forRest r cx start left) k fun _ _ => False := by
    intro left k hlt hk
    refine forRest_stuck hsound (fun hin => ?_) (fun hof => ?_) (by omega)
    · rw [hin] at hk
      rcases hk with hk | hk <;> cases hk
    · rw [hof] at hk
      rcases hk with hk | hk <;> cases hk
  refine .readKeyword hword fun _ => .readMark hopen fun _ => .peekKind ?_
  cases h with
  | noInit =>
    rw [hsemi.1]
    refine .no (.bind (.map ((hsound.pattern (by omega)).mono fun b _ _ hb => ?_)))
    have hopens := hb.opens
    rw [hsemi.1] at hopens
    cases hopens
  | initVars hread hkind hds =>
    obtain ⟨b, m, hb, hk⟩ := hds.first_binding hends
    rw [hread.1, hkind]
    exact .yes (.found (varKind_finds hread hkind) fun _ _ _ => .here (.found
      (hr.pattern rfl hb .refl (by omega)) fun _ _ _ => .spanned fun _ =>
        .bind (.pure (hmark (by omega) hk))))
  | initExpr he =>
    obtain ⟨first, m, hfirst, hlevel, hk⟩ := he.first_assignment hends
    rw [noVarKind_of_startsExpr he.opens]
    refine .no (.bind (.map ((hr.cover rfl hfirst hlevel (by omega)).mono ?_)))
    rintro b _ _ ⟨hlt, hcovers⟩
    cases hcovers with
    | whole hm => exact hmark (by omega) (.inl (by rw [hm]; exact hk))
    | valued hread => exact hmark (by omega) (.inr hread.1)
    | stuck _ _ hin hof => exact forRest_stuck hsound (fun hk => nomatch hin hk) hof (by omega)

section
variable (hr : Complete rd d r)
include hr

theorem optionalBefore_finds {mark : Punctuator} {e : Option Expr} {m : Nat}
    (h : Spells rd (.optional cx e) i j) (hclose : rd.Reads (.punct mark) j m)
    (hmark : mark = .semicolon ∨ mark = .rParen) (hd : rd.tokens.size ≤ i + d) :
    Runs rd E (optionalBefore mark (expression r cx)) i (Finds Expr.optionBare e j) := by
  cases h with
  | left_out => exact .sees hclose.1 (.yes (.pure ⟨rfl, rfl⟩))
  | given he =>
    have hnot : rd.kindAt i ≠ .punct mark := by
      intro hk
      have hopens := he.opens
      rw [hk] at hopens
      rcases hmark with rfl | rfl <;> cases hopens
    have hends : mark = .rParen ∨ mark = .rBracket ∨ mark = .rBrace ∨ mark = .colon ∨
        mark = .semicolon := by
      rcases hmark with rfl | rfl <;> decide
    exact .misses hnot (.no (.found (expression_finds hr he (.of_reads hclose hends) .refl hd)
      fun _ _ hbare => .pure ⟨rfl, congrArg some hbare⟩))

theorem forCount_finds {test update : Option Expr} {body : Stmt}
    (h : Spells rd (.stmt cx (.forLoop sp init test update body)) i j)
    (hd : rd.tokens.size ≤ i + d + 1) :
    Runs rd E (forCount r cx start) i
      (Finds Stmt.bare (.forLoop sp init test update body) j) := by
  cases h with
  | @forLoop _ _ _ _ _ _ _ i₁ i₂ i₃ i₄ i₅ i₆ i₇ i₈ _ hword hopen hinit hsemi htest hsemi' hupdate
      hclose hbody =>
    refine .readKeyword hword fun _ => .readMark hopen fun _ => ?_
    have hrest : ∀ {init'}, i < i₃ → init'.bare = init.bare → Runs rd E (do
        expectMark .semicolon
        let test ← optionalBefore .semicolon (expression r cx.allowIn)
        expectMark .semicolon
        let update ← optionalBefore .rParen (expression r cx.allowIn)
        expectMark .rParen
        let body ← r.statement cx
        return Stmt.forLoop (← spanFrom start) init' test update body) i₃
        (Finds Stmt.bare (.forLoop sp init test update body) j) := by
      intro init' _ hbare
      refine .readMark hsemi fun _ => .found
        (optionalBefore_finds hr htest hsemi' (.inl rfl) (by omega)) fun test' _ hbareTest =>
          .readMark hsemi' fun _ => .found
            (optionalBefore_finds hr hupdate hclose (.inr rfl) (by omega))
            fun update' _ hbareUpdate => .readMark hclose fun _ => .found
              (hr.statement rfl hbody (by omega)) fun body' _ hbareBody => .spanned fun _ =>
                .pure ⟨rfl, ?_⟩
      simp only [Stmt.bare, hbare, hbareTest, hbareUpdate, hbareBody]
    cases hinit with
    | noInit => exact .sees hsemi.1 (.yes (.bind (.pure (hrest (by omega) rfl))))
    | initVars hread hkind hds =>
      refine .misses (fun hk => ?_) (.no (.peekKind ?_))
      · rw [← hread.1, hk] at hkind
        cases hkind
      rw [hread.1, hkind]
      refine .yes (.found (varKind_finds hread hkind) ?_)
      rintro _ _ rfl
      refine .bind (.map ((declarators_finds hr hds
        (.of_endsYield (by rw [hsemi.1]; rfl)) (by omega)).mono ?_))
      rintro ds' _ _ ⟨rfl, hbare⟩
      exact hrest (by omega) (by simp only [ForInit.bare, hbare, id])
    | initExpr he =>
      refine .misses (fun hk => ?_) (.no (.peekKind ?_))
      · have hopens := he.opens
        rw [hk] at hopens
        cases hopens
      rw [noVarKind_of_startsExpr he.opens]
      refine .no (.bind (.map ((expression_finds hr he (.of_reads hsemi (by decide)) .refl
        (by omega)).mono ?_)))
      rintro e' _ _ ⟨rfl, hbare⟩
      exact hrest (by omega) (by simp only [ForInit.bare, hbare])

theorem forStatement_each (h : Spells rd (.stmt cx st) i j) (hloops : iterates st = true)
    (hd : rd.tokens.size ≤ i + d + 1) :
    Runs rd E (forStatement r cx start) i (Finds Stmt.bare st j) :=
  .bind (.attemptSure ((forEach_finds hr h hloops hd).mono fun _ _ _ hfound => .pure hfound))

end

end

end Grammar
end ScriptBundler
