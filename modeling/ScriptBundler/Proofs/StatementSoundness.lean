import ScriptBundler.Grammar.Program
import ScriptBundler.Proofs.Soundness

/-!
# What parsers answer as statements

The productions of imports, exports and statements answer what is spelled, as
those of expressions do.
-/

namespace ScriptBundler
namespace Grammar

open Grammar.Parser

variable {ts : Reading} [ts.Ended] {i : Nat} {H : Ending}

theorem importSpecifier_sound :
    Meets ts importSpecifier i fun x => Derives ts.placed H (.item .top .importName x) i :=
  .here (.anyName fun _ hname h₁ _ => .eatWord
    (fun _ has _ => .yes (.variableName fun _ hlocal h₃ _ => .spanFrom fun _ _ =>
      .pure (.importedAs hname rfl h₁ has hlocal rfl h₃)))
    fun has => .no (.bind (.pure (.spanFrom fun _ _ => .pure (.imported hname rfl h₁ has)))))

theorem importList_sound : Meets ts importList i fun xs => Derives ts.placed H (.importList xs) i :=
  .here (.ifEat
    (fun _ hstar _ => .expectWord fun _ has _ => .variableName fun _ hname h₃ _ =>
      .spanFrom fun _ _ => .pure (.importAll hstar has hname rfl h₃))
    fun _ => .expectMark fun _ hopen _ =>
      .mono (.commaList (c := .importName) fun _ _ => importSpecifier_sound (H := H))
        fun _ _ _ hxs => .importNames hopen hxs)

theorem importClause_sound :
    Meets ts importClause i fun xs => Derives ts.placed H (.importClause xs) i :=
  .peekKind (.ite
    (fun _ => .here (.variableName fun _ hname h₁ _ => .spanFrom fun _ _ => .ifEat
      (fun _ hcomma _ => (importList_sound (H := H)).next fun _ _ _ hxs =>
        .pure (.clauseBoth hname rfl h₁ hcomma hxs))
      fun hcomma => .pure (.clauseDefault hname rfl h₁ hcomma)))
    fun _ => importList_sound.mono fun _ _ _ hxs => .clauseList hxs)

theorem importStatement_sound {cx : Context} :
    Meets ts importStatement i fun st => Derives ts.placed H (.stmt cx st) i := by
  unfold importStatement
  refine .here (.expectKeyword fun i₁ hword _ => ?_)
  have hrest : ∀ specifiers i₂, (∀ sp source i₃ j, ts.placed.StringAt source i₂ i₃ →
      ts.placed.Closes i₃ j → ts.Spans i j sp →
      Derives ts.placed H (.stmt cx (.importFrom sp source specifiers)) i j) → Meets ts (do
        let source ← expectString
        semicolon
        return Stmt.importFrom (← spanFrom (ts.nextAt i).span.start) source specifiers) i₂
          fun st => Derives ts.placed H (.stmt cx st) i :=
    fun _ _ hspell => expectString_sound.next fun _ _ _ hsource => .semicolon fun _ hclose _ =>
      .spanFrom fun _ hsp => .pure (hspell _ _ _ _ hsource hclose hsp)
  refine .ifAt (fun _ => .bind (.pure (hrest [] i₁ fun _ _ _ _ => .importOnly hword))) fun _ => ?_
  exact importClause_sound.next fun specifiers _ _ hclause => .expectWord fun i₃ hfrom _ =>
    .bind (.pure (hrest specifiers i₃ fun _ _ _ _ => .importFrom hword hclause hfrom))

theorem exportSpecifier_sound :
    Meets ts exportSpecifier i fun x => Derives ts.placed H (.item .top .exportName x) i :=
  .here (.anyName fun _ hname h₁ _ => .eatWord
    (fun _ has _ => .yes (.anyName fun _ hexported h₃ _ => .spanFrom fun _ _ =>
      .pure (.exportedAs hname rfl h₁ has hexported rfl h₃)))
    fun has => .no (.bind (.pure (.spanFrom fun _ _ => .pure (.exportedName hname rfl h₁ has)))))

section
variable {r : Rules} {d : Nat} {cx : Context}

section
variable (hr : Sound ts H d r)
include hr

theorem exportedDefault_sound (hd : ts.tokens.size ≤ i + d) :
    Meets ts (exportedDefault r cx) i fun e => Derives ts.placed H (.exported cx e) i := by
  unfold exportedDefault
  refine .here (.peekKind ?_)
  split
  · refine (function_sound hr (by omega)).next ?_
    rintro f j _ ⟨hf, hasync, _, hsp'⟩
    exact .spanFrom fun _ hsp => .pure (.exportedFunc (.func hasync hf hsp') hsp)
  · exact (classParts_sound hr (by omega)).next fun _ _ _ hparts => .spanFrom fun _ hsp =>
      .pure (.exportedClass hparts.1 hsp)
  · rename_i hfunction hclass
    refine .peekSecondKind (.ite (fun hasync => ?_) fun hasync => ?_)
    · refine .advanceAt hasync.1 fun _ h₁ _ => (function_sound hr (by omega)).next ?_
      rintro f j _ ⟨hf, hisAsync, _, hsp'⟩
      exact .spanFrom fun _ hsp => .pure (.exportedFunc (.asyncFunc hisAsync h₁ hf (.inr hsp')) hsp)
    · refine (hr.assignment hd).next ?_
      rintro e i₁ _ ⟨he, hlevel, hstops⟩
      exact .semicolon fun _ hclose _ =>
        .pure (.exportedValue hfunction hclass hasync he hlevel hstops hclose)

omit [ts.Ended] in
theorem exportedDecl_sound {i₁ : Nat} (hword : ts.placed.Reads (.keyword .kwExport) i i₁)
    (hd : ts.tokens.size ≤ i₁ + d) : Meets ts (do
      match ← r.statement cx with
      | .decl value => return .exportDecl (← spanFrom (ts.nextAt i).span.start) value
      | _ => unexpectedAt (← rawPeek)) i₁ fun st => Derives ts.placed H (.stmt cx st) i := by
  refine (hr.statement hd).next fun st _ _ hst => ?_
  cases st with
  | decl value => exact .spanFrom fun _ hsp => .pure (.exportDecl hword hst hsp)
  | _ => exact .rawPeek .unexpectedAt

theorem exportStatement_sound (hd : ts.tokens.size ≤ i + d + 1) :
    Meets ts (exportStatement r cx) i fun st => Derives ts.placed H (.stmt cx st) i := by
  unfold exportStatement
  refine .here (.expectKeyword fun i₁ hword _ => ?_)
  refine .peekKind ?_
  split
  · rename_i hk
    exact .advanceAt hk fun _ h₂ _ => (exportedDefault_sound hr (by omega)).next fun _ _ _ he =>
      .spanFrom fun _ hsp => .pure (.exportDefault hword h₂ he hsp)
  · rename_i hk
    exact .advanceAt hk fun _ h₂ _ => .expectWord fun _ hfrom _ =>
      expectString_sound.next fun _ _ _ hsource => .semicolon fun _ hclose _ =>
        .spanFrom fun _ hsp => .pure (.exportAll hword h₂ hfrom hsource hclose hsp)
  · rename_i hk
    refine .advanceAt hk fun _ h₂ _ =>
      .next (.commaList (c := .exportName) fun _ _ => exportSpecifier_sound (H := H))
        fun _ _ _ hspecifiers => .eatWord (fun _ hfrom _ => .yes ?_) fun hfrom => .no ?_
    · exact .bind (.map (expectString_sound.mono fun _ _ _ hsource => .semicolon fun _ hclose _ =>
        .spanFrom fun _ hsp => .pure (.exportFrom hword h₂ hspecifiers hfrom hsource hclose hsp)))
    · exact .bind (.pure (.semicolon fun _ hclose _ => .spanFrom fun _ hsp =>
        .pure (.exportNames hword h₂ hspecifiers hfrom hclose hsp)))
  all_goals first | exact exportedDecl_sound hr hword (by omega) | exact .unexpected

theorem condition_sound (hd : ts.tokens.size ≤ i + d + 1) :
    Meets ts (condition r cx) i fun e => Derives ts.placed H (.condition cx e) i :=
  .expectMark fun _ hopen _ => (expression_sound hr (by omega)).next fun _ _ _ he =>
    .expectMark fun _ hclose _ => .pure (.condition hopen he.1 hclose)

theorem declarator_sound (hd : ts.tokens.size ≤ i + d) :
    Meets ts (declarator r cx) i fun x => Derives ts.placed H (.decl cx x) i :=
  .here ((hr.pattern hd).next fun _ _ _ hb => .ifEat
    (fun _ heq _ => .bind (.map ((hr.assignment (by omega)).mono fun _ _ _ he =>
      .spanFrom fun _ hsp => .pure (.decl hb (.value heq he.1 he.2.1 he.2.2) hsp))))
    fun hno => .bind (.pure (.spanFrom fun _ hsp => .pure (.decl hb (.noValue hno) hsp))))

theorem declarators_sound (hd : ts.tokens.size ≤ i + d) :
    Meets ts (declarators r cx) i fun xs => Derives ts.placed H (.decls cx xs) i := by
  refine (declarator_sound hr hd).next fun first i₁ hle hfirst => .bind (.collect (fun done j =>
    (ts.kindAt j ≠ .punct .comma → Derives ts.placed H (.decls cx (first :: done.reverse)) i j) ∧
    ∀ ds j₁ k, ts.placed.Reads (.punct .comma) j j₁ → Derives ts.placed H (.decls cx ds) j₁ k →
      Derives ts.placed H (.decls cx (first :: (done.reverse ++ ds))) i k)
    ⟨fun hno => .lastDecl hfirst hno, fun _ _ _ hcomma hds => .moreDecls hfirst hcomma hds⟩ ?_)
  rintro done j hle' ⟨hlast, hmore⟩
  refine .ifEat (fun j₁ hcomma _ => (declarator_sound hr (by omega)).next fun x k _ hx => ?_)
    fun hno => .pure (.pure (hlast hno))
  refine .pure ⟨by omega, fun hno => ?_, fun ds k' l hcomma' hds => ?_⟩
  · rw [List.reverse_cons]
    exact hmore _ _ _ hcomma (.lastDecl hx hno)
  · rw [List.reverse_cons, List.append_assoc]
    exact hmore _ _ _ hcomma (.moreDecls hx hcomma' hds)

end

theorem varKind_sound :
    Meets ts varKind i fun kind j => i < j ∧ ∃ k, ts.placed.Reads k i j ∧
      VarKind.ofKind? k = some kind := by
  by_cases hend : ts.kindAt i = .endOfInput
  · have hnone : VarKind.ofKind? (ts.nextAt i).kind = none := by
      change VarKind.ofKind? (ts.kindAt i) = none
      rw [hend]
      rfl
    refine .advanceAtEnd hend fun s => ?_
    rw [hnone]
    trivial
  · refine .advance hend fun hlt => ?_
    cases hkind : VarKind.ofKind? (ts.nextAt i).kind with
    | none => exact .unexpected
    | some kind => exact .pure ⟨hlt, _, ⟨rfl, rfl, trivial⟩, hkind⟩

end

section
variable {r : Rules} {d : Nat} {cx : Context}

section
variable (hr : Sound ts H d r)
include hr

section
variable (hd : ts.tokens.size ≤ i + d + 1)
include hd

theorem switchCase_sound :
    Meets ts (switchCase r cx) i fun c => Derives ts.placed H (.case cx c) i := by
  unfold switchCase
  refine .here ?_
  have hbody : ∀ test i₁, i < i₁ → (∀ sp body i₂ j, ts.placed.Reads (.punct .colon) i₁ i₂ →
      Derives ts.placed H (.stmts cx caseStops body) i₂ j → ts.Spans i j sp →
      Derives ts.placed H (.case cx ⟨sp, test, body⟩) i j) → Meets ts (do
        expectMark .colon
        let body ← statementsUntil
          [.keyword .kwCase, .keyword .kwDefault, .punct .rBrace] (r.statement cx)
        return (⟨← spanFrom (ts.nextAt i).span.start, test, body⟩ : SwitchCase)) i₁
          fun c => Derives ts.placed H (.case cx c) i :=
    fun _ _ _ hspell => .expectMark fun _ hcolon _ =>
      (statementsUntil_sound hr (by omega)).next fun _ _ _ hbody => .spanFrom fun _ hsp =>
        .pure (hspell _ _ _ _ hcolon hbody hsp)
  refine .ifEat (fun _ hword _ => .bind (.map ((expression_sound hr (by omega)).mono
    fun e i₂ _ he => ?_))) fun _ => .expectKeyword fun i₁ hword hlt => .bind (.pure ?_)
  · exact hbody (some e) i₂ (by omega) fun _ _ _ _ => .testCase hword he.1
  · exact hbody none i₁ hlt fun _ _ _ _ => .defaultCase hword

theorem switchStatement_sound :
    Meets ts (switchStatement r cx (ts.nextAt i).span.start) i fun st =>
      Derives ts.placed H (.stmt cx st) i := by
  refine .expectKeyword fun _ hword _ => (condition_sound hr (by omega)).next fun _ _ _ he =>
    .expectMark fun i₃ hopen _ => .bind (.collect (fun done j => ∀ cs k,
      Derives ts.placed H (.cases cx cs) j k →
        Derives ts.placed H (.cases cx (done.reverse ++ cs)) i₃ k)
      (fun _ _ h => h) fun done j _ hdone => ?_)
  refine .ifEat (fun k hclose _ => .pure ?_) fun _ =>
    (switchCase_sound hr (by omega)).next fun c k _ hc => .pure ⟨hc.lt rfl, fun cs l hcs => ?_⟩
  · have h := hdone [] k (.noCases hclose)
    rw [List.append_nil] at h
    exact .spanFrom fun _ hsp => .pure (.switch hword he hopen h hsp)
  · rw [List.reverse_cons, List.append_assoc]
    exact hdone _ l (.moreCases hc hcs)

theorem handler_sound :
    Meets ts (handler r cx) i fun h j =>
      Derives ts.placed H (.handler cx h.param h.body) i j ∧ ts.Spans i j h.span := by
  unfold handler
  refine .here (.expectKeyword fun i₁ hword _ => ?_)
  have hbody : ∀ param i₂, i₁ ≤ i₂ → (∀ body j, Derives ts.placed H (.block cx body) i₂ j →
      Derives ts.placed H (.handler cx param body) i j) → Meets ts (do
        let body ← block r cx
        return (⟨← spanFrom (ts.nextAt i).span.start, param, body⟩ : Handler)) i₂ fun h j =>
          Derives ts.placed H (.handler cx h.param h.body) i j ∧ ts.Spans i j h.span :=
    fun _ _ _ hspell => (block_sound hr (by omega)).next fun _ _ _ hbody =>
      .spanFrom fun _ hsp => .pure ⟨hspell _ _ hbody, hsp⟩
  refine .ifEat (fun _ hopen _ => (hr.pattern (by omega)).next fun b _ _ hb =>
    .expectMark fun i₄ hclose _ => .bind (.pure ?_)) fun _ => .bind (.pure ?_)
  · exact hbody (some b) i₄ (by omega) fun _ _ => .handler hword hopen hb hclose
  · exact hbody none i₁ (Nat.le_refl i₁) fun _ _ => .bareHandler hword

theorem tryStatement_sound :
    Meets ts (tryStatement r cx (ts.nextAt i).span.start) i fun st =>
      Derives ts.placed H (.stmt cx st) i := by
  unfold tryStatement
  refine .expectKeyword fun _ hword _ => (block_sound hr (by omega)).next fun _ _ _ hbody =>
    .ifAt (fun _ => .bind (.map ((handler_sound hr (by omega)).mono ?_))) fun _ => .bind (.pure ?_)
  · rintro h i₃ _ ⟨hh, hsp'⟩
    refine .ifEat (fun _ hfinally _ => .bind (.map ((block_sound hr (by omega)).mono
      fun _ _ _ hf => ?_))) fun hno => .bind (.pure ?_)
    · exact .spanFrom fun _ hsp => .pure (.tryCatchFinally hword hbody hh hfinally hf hsp' hsp)
    · exact .spanFrom fun _ hsp => .pure (.tryCatch hword hbody hh hno hsp' hsp)
  · refine .ifEat (fun _ hfinally _ => .bind (.map ((block_sound hr (by omega)).mono
      fun _ _ _ hf => ?_))) fun _ => .bind (.pure .unexpected)
    exact .spanFrom fun _ hsp => .pure (.tryFinally hword hbody hfinally hf hsp)

end

theorem forEach_sound (hd : ts.tokens.size ≤ i + d + 1) :
    Meets ts (forEach r cx (ts.nextAt i).span.start) i fun st =>
      Derives ts.placed H (.stmt cx st) i := by
  unfold forEach
  refine .expectKeyword fun i₁ hword _ => .expectMark fun i₂ hopen _ => ?_
  have hrest : ∀ left i₃, i₂ ≤ i₃ → Derives ts.placed H (.forLeft cx left) i₂ i₃ → Meets ts (do
      if ← eatKeyword .kwIn then
        let right ← expression r cx.allowIn
        expectMark .rParen
        let body ← r.statement cx
        return Stmt.forIn (← spanFrom (ts.nextAt i).span.start) left right body
      else
        expectWord "of"
        let right ← r.assignment cx.allowIn
        expectMark .rParen
        let body ← r.statement cx
        return Stmt.forOf (← spanFrom (ts.nextAt i).span.start) left right body) i₃
        fun st => Derives ts.placed H (.stmt cx st) i := by
    intro left i₃ _ hleft
    refine .ifEat (fun _ hin _ => ?_) fun _ => .expectWord fun _ hof _ => ?_
    · exact (expression_sound hr (by omega)).next fun _ _ _ he => .expectMark fun _ hclose _ =>
        (hr.statement (by omega)).next fun _ _ _ hbody => .spanFrom fun _ hsp =>
          .pure (.forIn hword hopen hleft hin he.1 hclose hbody hsp)
    · exact (hr.assignment (by omega)).next fun _ _ _ he => .expectMark fun _ hclose _ =>
        (hr.statement (by omega)).next fun _ _ _ hbody => .spanFrom fun _ hsp =>
          .pure (.forOf hword hopen hleft hof he.1 he.2.1 hclose hbody hsp)
  refine .peekKind (.ite (fun _ => varKind_sound.next ?_) fun _ => .bind (.map
    ((hr.pattern (by omega)).mono fun _ i₃ hle hb => hrest _ i₃ hle (.leftPattern hb))))
  rintro kind i₃ _ ⟨hlt, k, hk, hkind⟩
  exact .here ((hr.pattern (by omega)).next fun _ i₄ hle hb => .spanFrom fun _ hsp =>
    .bind (.pure (hrest _ i₄ (by omega) (.leftVars hk hkind hb hsp))))

theorem optionalBefore_sound {mark : Punctuator} (hd : ts.tokens.size ≤ i + d) :
    Meets ts (optionalBefore mark (expression r cx)) i fun e =>
      Derives ts.placed H (.optional cx e) i :=
  .ifAt (fun _ => .pure .left_out) fun _ => (expression_sound hr hd).next fun _ _ _ he =>
    .pure (.given he.1)

theorem forCount_sound (hd : ts.tokens.size ≤ i + d + 1) :
    Meets ts (forCount r cx (ts.nextAt i).span.start) i fun st =>
      Derives ts.placed H (.stmt cx st) i := by
  unfold forCount
  refine .expectKeyword fun i₁ hword _ => .expectMark fun i₂ hopen _ => ?_
  have hrest : ∀ init i₃, i₂ ≤ i₃ → Derives ts.placed H (.forInit cx init) i₂ i₃ → Meets ts (do
      expectMark .semicolon
      let test ← optionalBefore .semicolon (expression r cx.allowIn)
      expectMark .semicolon
      let update ← optionalBefore .rParen (expression r cx.allowIn)
      expectMark .rParen
      let body ← r.statement cx
      return Stmt.forLoop (← spanFrom (ts.nextAt i).span.start) init test update body) i₃
        fun st => Derives ts.placed H (.stmt cx st) i := by
    intro init i₃ _ hinit
    exact .expectMark fun _ hsemi _ => (optionalBefore_sound hr (by omega)).next fun _ _ _ htest =>
      .expectMark fun _ hsemi' _ => (optionalBefore_sound hr (by omega)).next fun _ _ _ hupdate =>
        .expectMark fun _ hclose _ => (hr.statement (by omega)).next fun _ _ _ hbody =>
          .spanFrom fun _ hsp =>
            .pure (.forLoop hword hopen hinit hsemi htest hsemi' hupdate hclose hbody hsp)
  refine .ifAt (fun _ => .bind (.pure (hrest _ i₂ (Nat.le_refl i₂) .noInit))) fun _ =>
    .peekKind (.ite (fun _ => varKind_sound.next ?_) fun _ => .bind (.map
      ((expression_sound hr (by omega)).mono fun _ i₃ hle he => hrest _ i₃ hle (.initExpr he.1))))
  rintro kind i₃ _ ⟨hlt, k, hk, hkind⟩
  exact .bind (.map ((declarators_sound hr (by omega)).mono fun _ i₄ hle hds =>
    hrest _ i₄ (by omega) (.initVars hk hkind hds)))

theorem forStatement_sound (hd : ts.tokens.size ≤ i + d + 1) :
    Meets ts (forStatement r cx (ts.nextAt i).span.start) i fun st =>
      Derives ts.placed H (.stmt cx st) i :=
  .bind (.attempt ((forEach_sound hr hd).mono fun _ _ _ h => .pure h) (forCount_sound hr hd))

end

theorem jumpLabel_sound {jump : Span → Option String → Stmt} {i₁ : Nat}
    (hlabel : ∀ sp label i₂ j, ts.breaksAt i₁ = false → ts.placed.ReadsWord label i₁ i₂ →
      ts.placed.Closes i₂ j → ts.Spans i j sp →
      Derives ts.placed H (.stmt cx (jump sp (some label))) i j)
    (hnone : ∀ sp j, ts.placed.Closes i₁ j → ts.Spans i j sp →
      Derives ts.placed H (.stmt cx (jump sp none)) i j) :
    Meets ts (do
      let label ← jumpLabel
      semicolon
      return jump (← spanFrom (ts.nextAt i).span.start) label) i₁ fun st =>
        Derives ts.placed H (.stmt cx st) i := by
  have hbare : Meets ts (do
      semicolon
      return jump (← spanFrom (ts.nextAt i).span.start) none) i₁ fun st =>
        Derives ts.placed H (.stmt cx st) i :=
    .semicolon fun _ hclose _ => .spanFrom fun _ hsp => .pure (hnone _ _ hclose hsp)
  refine .bind (.newlineBefore (.ite (fun _ => .pure hbare) fun hline => .ifAt (fun _ => ?_)
    fun _ => .pure hbare))
  exact .identifier fun _ hname _ => .pure (.semicolon fun _ hclose _ => .spanFrom fun _ hsp =>
    .pure (hlabel _ _ _ _ (Bool.eq_false_iff.mpr hline) ⟨hname, rfl⟩ hclose hsp))

/-- Assignments end as they are asked to.  The rules need not tell: how an
expression ends may depend on tokens that were not read. -/
def Assigns (ts : Reading) (H : Ending) (d : Nat) (r : Rules) : Prop :=
  ∀ {i cx}, ts.tokens.size ≤ i + d + 1 → Meets ts (assignment r cx) i (Assigned ts H H cx i)

theorem expressionStatement_sound (hassign : Assigns ts H d r) (hd : ts.tokens.size ≤ i + d + 1)
    (hopens : opensStatement (ts.kindAt i) (ts.kindAt (ts.past i)) = false) :
    Meets ts (expressionStatement r cx (ts.nextAt i).span.start) i fun st =>
      Derives ts.placed H (.stmt cx st) i :=
  (commaSequence_sound fun _ _ => hassign (by omega)).next fun _ _ _ he =>
    .semicolon fun _ hclose _ => .spanFrom fun _ hsp =>
      .pure (.exprStmt hopens he.1 he.2 hclose hsp)

theorem keywordStatement_sound {word : Keyword} (hr : Sound ts H d r) (hassign : Assigns ts H d r)
    (hd : ts.tokens.size ≤ i + d + 1) (hk : ts.kindAt i = .keyword word) :
    Meets ts (keywordStatement r cx (ts.nextAt i).span.start word) i fun st =>
      Derives ts.placed H (.stmt cx st) i := by
  have hvars : Meets ts (do
      let kind ← varKind
      let decls ← declarators r cx
      semicolon
      return .decl (.vars (← spanFrom (ts.nextAt i).span.start) kind decls)) i fun st =>
        Derives ts.placed H (.stmt cx st) i := by
    refine varKind_sound.next ?_
    rintro kind _ _ ⟨hlt, k, hk, hkind⟩
    exact (declarators_sound hr (by omega)).next fun _ _ _ hds => .semicolon fun _ hclose _ =>
      .spanFrom fun _ hsp => .pure (.vars hk hkind hds hclose hsp)
  cases word with
  | kwThrow =>
    refine .advanceAt hk fun _ hword _ => .newlineBefore (.ite (fun _ => .bind .unexpected)
      fun hline => (expression_sound hr (by omega)).next ?_)
    rintro e i₂ _ ⟨he, hstops⟩
    exact .semicolon fun _ hclose _ => .spanFrom fun _ hsp =>
      .pure (.throw hword (Bool.eq_false_iff.mpr hline) he hstops hclose hsp)
  | kwSwitch => exact switchStatement_sound hr hd
  | kwTry => exact tryStatement_sound hr hd
  | kwVar => exact hvars
  | kwLet => exact hvars
  | kwConst => exact hvars
  | kwClass =>
    exact (classParts_sound hr hd).next fun _ _ _ hparts => .spanFrom fun _ hsp =>
      .pure (.classDecl (hparts.2 rfl) hparts.1 hsp)
  | kwDo =>
    exact .advanceAt hk fun _ hword _ => (hr.statement (by omega)).next fun _ _ _ hbody =>
      .expectKeyword fun _ hwhile _ => (condition_sound hr (by omega)).next fun _ _ _ he =>
        .eat (fun _ hsemi _ => .spanFrom fun _ hsp =>
          .pure (.doWhile hword hbody hwhile he (.yes hsemi) hsp))
        fun hsemi => .spanFrom fun _ hsp => .pure (.doWhile hword hbody hwhile he (.no hsemi) hsp)
  | kwWhile =>
    exact .advanceAt hk fun _ hword _ => (condition_sound hr (by omega)).next fun _ _ _ he =>
      (hr.statement (by omega)).next fun _ _ _ hbody => .spanFrom fun _ hsp =>
        .pure (.whileLoop hword he hbody hsp)
  | kwIf =>
    refine .advanceAt hk fun _ hword _ => (condition_sound hr (by omega)).next fun _ _ _ he =>
      (hr.statement (by omega)).next fun _ _ _ hyes => .ifEat (fun _ helse _ => ?_) fun helse => ?_
    · exact (hr.statement (by omega)).next fun _ _ _ hno => .spanFrom fun _ hsp =>
        .pure (.ifElse hword he hyes helse hno hsp)
    · exact .spanFrom fun _ hsp => .pure (.ifThen hword he hyes helse hsp)
  | kwFor => exact forStatement_sound hr hd
  | kwExport => exact exportStatement_sound hr hd
  | kwImport => exact importStatement_sound
  | kwFunction =>
    refine (function_sound hr hd).next ?_
    rintro f j _ ⟨hf, hasync, hname, hsp'⟩
    exact .spanFrom fun _ hsp => .pure (.functionDecl (hname rfl) (.func hasync hf hsp') hsp)
  | kwAsync =>
    refine .peekSecondKind (.ite (fun _ => ?_) fun hsecond => ?_)
    · exact (asyncFunction_sound hr hk hd).next fun _ _ _ hf => .spanFrom fun _ hsp =>
        .pure (.functionDecl (hf.2 rfl) hf.1 hsp)
    · refine expressionStatement_sound hassign hd ?_
      rw [hk]
      exact decide_eq_false hsecond
  | kwReturn =>
    refine .advanceAt hk fun i₁ hword _ => ?_
    have hnothing : Meets ts (do
        semicolon
        return Stmt.ret (← spanFrom (ts.nextAt i).span.start) none) i₁ fun st =>
          Derives ts.placed H (.stmt cx st) i :=
      .semicolon fun _ hclose _ => .spanFrom fun _ hsp => .pure (.retNothing hword hclose hsp)
    refine .bind (.newlineBefore (.ite (fun _ => ?_) fun hline => .peekKind ?_))
    · exact .pure (.yes (.bind (.pure hnothing)))
    · split
      · exact .pure (.yes (.bind (.pure hnothing)))
      · exact .pure (.yes (.bind (.pure hnothing)))
      · exact .pure (.yes (.bind (.pure hnothing)))
      · refine .pure (.no (.bind (.map ((expression_sound hr (by omega)).mono ?_))))
        rintro e i₂ _ ⟨he, hstops⟩
        exact .semicolon fun _ hclose _ => .spanFrom fun _ hsp =>
          .pure (.ret hword (Bool.eq_false_iff.mpr hline) he hstops hclose hsp)
  | kwBreak =>
    exact .advanceAt hk fun _ hword _ => jumpLabel_sound (fun _ _ _ _ => .breakTo hword)
      fun _ _ => .breakOut hword
  | kwContinue =>
    exact .advanceAt hk fun _ hword _ => jumpLabel_sound (fun _ _ _ _ => .continueTo hword)
      fun _ _ => .continueOn hword
  | kwDebugger =>
    exact .advanceAt hk fun _ hword _ => .semicolon fun _ hclose _ => .spanFrom fun _ hsp =>
      .pure (.debugger hword hclose hsp)
  | kwWith => exact .unexpected
  | _ => exact expressionStatement_sound hassign hd (by rw [hk]; rfl)

theorem statement_sound (hr : Sound ts H d r) (hassign : Assigns ts H d r)
    (hd : ts.tokens.size ≤ i + d + 1) :
    Meets ts (statement r cx) i fun st => Derives ts.placed H (.stmt cx st) i := by
  unfold statement
  refine .peek ?_
  split
  · rename_i hk
    change ts.kindAt i = _ at hk
    refine .peekSecondKind (.ite (fun _ => ?_) fun hsecond => ?_)
    · exact .identifier fun _ hlabel _ => .expectMark fun _ hcolon _ =>
        (hr.statement (by omega)).next fun _ _ _ hbody => .spanFrom fun _ hsp =>
          .pure (.labeled ⟨hlabel, rfl⟩ hcolon hbody hsp)
    · refine expressionStatement_sound hassign hd ?_
      rw [hk]
      exact decide_eq_false hsecond
  · rename_i hk
    exact keywordStatement_sound hr hassign hd hk
  · exact (block_sound hr hd).next fun _ _ _ hbody => .spanFrom fun _ hsp =>
      .pure (.blockStmt hbody hsp)
  · rename_i hk
    exact .advanceAt hk fun _ h₁ _ => .spanFrom fun _ hsp => .pure (.empty h₁ hsp)
  · rename_i hword hkeyword hbrace hsemi
    refine expressionStatement_sound hassign hd ?_
    unfold opensStatement
    split
    · exact absurd ‹_› hword
    · exact absurd ‹_› hbrace
    · exact absurd ‹_› hsemi
    · exact absurd ‹_› (hkeyword _)
    · exact absurd ‹_› (hkeyword _)
    · rfl

theorem Sound.produce (hr : Sound ts H d r) (hassign : Assigns ts H d r) :
    Sound ts H (d + 1) (produce r) where
  stops := hr.stops
  assignment := hassign
  unary := unary_sound hr
  operand := operand_sound hr
  construct := construct_sound hr
  pattern := pattern_sound hr
  statement := statement_sound hr hassign

omit [ts.Ended] in
/-- Without calls left there is no token left either. -/
theorem Sound.zero {r : Rules} (hstops : ∀ {noIn j e}, H noIn j e → Stops ts noIn j e) :
    Sound ts H 0 r :=
  ⟨hstops, .beyond, .beyond, .beyond, .beyond, .beyond, .beyond⟩

theorem rules_sound (d : Nat) : Sound ts (Stops ts) d (rules d) := by
  induction d with
  | zero => exact .zero fun h => h
  | succ d ih =>
    exact ih.produce fun hd => (assignment_sound ih hd).mono fun _ _ _ h => ⟨h.1, h.2.1, h.2.2.1⟩

end

def Outcome {α : Type} (E : Failure → Prop) (Q : α → Prop) :
    EStateM.Result Failure Progress α → Prop
  | .ok a _ => Q a
  | .error e _ => E e

theorem Outcome.mono {α : Type} {E : Failure → Prop} {Q Q' : α → Prop}
    {x : EStateM.Result Failure Progress α} (h : Outcome E Q x) (hQ : ∀ a, Q a → Q' a) :
    Outcome E Q' x := by
  cases x with
  | ok a => exact hQ a h
  | error => exact h

theorem program_runs {E : Failure → Prop} {Q : List Stmt → Nat → Prop} {r : Rules}
    (h : Runs ts E (statementsUntil [] (r.statement .top)) 0 Q)
    (hno : ∀ body j, Q body j → ts.kindAt j ≠ .endOfInput → E (.unexpected (ts.nextAt j))) :
    Outcome E (fun body => ∃ j, Q body j ∧ ts.kindAt j = .endOfInput) (program r ts .start) := by
  cases hrun : statementsUntil [] (r.statement .top) ts .start with
  | error e s =>
    have hprogram : program r ts .start = .error e s := by
      simp only [program, Bind.bind, ReaderT.bind, EStateM.bind, hrun]
    rw [hprogram]
    exact h.of_error situated_start hrun
  | ok body s =>
    obtain ⟨j, _, hs, hbody⟩ := h.of_ok situated_start hrun
    obtain rfl := hs.pos
    have hprogram : program r ts .start = (do
        let _ ← expect .endOfInput
        return body : Parser Program) ts s := by
      simp only [program, Bind.bind, ReaderT.bind, EStateM.bind, hrun]
    rw [hprogram]
    have hexpect : expect .endOfInput ts s =
        (if decide (ts.kindAt s.pos = .endOfInput) = true then advance else unexpected) ts s := rfl
    by_cases hk : ts.kindAt s.pos = .endOfInput
    · have hadvance : advance ts s = .ok (ts.nextAt s.pos) { s with pos := (ts.skip s.pos).1 } :=
        if_pos hk
      rw [decide_eq_true hk, if_pos rfl, hadvance] at hexpect
      simp only [Bind.bind, ReaderT.bind, EStateM.bind, hexpect]
      exact ⟨_, hbody, hk⟩
    · rw [decide_eq_false hk, if_neg Bool.false_ne_true] at hexpect
      simp only [Bind.bind, ReaderT.bind, EStateM.bind, hexpect]
      exact hno _ _ hbody hk

theorem program_sound {d : Nat} {r : Rules} (hr : Sound ts H d r) (hd : ts.tokens.size ≤ d) :
    Outcome Excused (fun body => ∃ j, Derives ts.placed H (.stmts .top [] body) 0 j ∧
      ts.kindAt j = .endOfInput) (program r ts .start) :=
  program_runs (statementsUntil_sound hr (by omega)) fun _ _ _ _ => trivial

end Grammar
end ScriptBundler
