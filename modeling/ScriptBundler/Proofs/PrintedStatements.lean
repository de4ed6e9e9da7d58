import ScriptBundler.Proofs.PrintedExpressions
import ScriptBundler.Proofs.Walking

/-!
# Printed statements are read back

What is printed for a well-formed tree spells this tree, statements included.
The statements of a block are read from the last one on: what stands behind a
statement is the start of the statement that follows it.
-/

namespace ScriptBundler
namespace Grammar

open Grammar.Parser Grammar.Stream Piece

variable {rd : Reading} {H : Ending} {stop : List Token.Kind} {cs : List SwitchCase}
  {ds : List Declarator} {b : Binding} {kind : VarKind}

def endsStmts : Token.Kind → Bool
  | .endOfInput | .keyword .kwCase | .keyword .kwDefault | .punct .rBrace | .keyword .kwElse
  | .keyword .kwFinally => true
  | _ => false

section
variable {ts : Stream} {cx : Context} {e : Expr} {s : Stmt} {body : List Stmt} {k : Token.Kind}
  {sp sp' : Span} {i j m : Nat}

theorem endsStmts_of_startsExpr (h : startsExpr k = true) : endsStmts k = false := by
  unfold endsStmts
  split
  all_goals first | rfl | cases h

theorem Derives.not_endsStmts (h : Derives rd H (.stmt cx s) i j) :
    endsStmts (rd.kindAt i) = false := by
  rcases h.stmt_cases with ⟨e, m, he, -, -⟩ | ⟨hk, -⟩ | hstart
  · exact endsStmts_of_startsExpr he.opens
  · rw [hk]
    rfl
  · unfold endsStmts
    split
    all_goals first | rfl | simp_all [startsStatement]

theorem endsStmts_of_mem_caseStops (h : k ∈ caseStops) : endsStmts k = true := by
  revert k
  decide

theorem Derives.stmts_kind (h : Derives rd H (.stmts cx stop body) i j)
    (hstop : ∀ x ∈ stop, x ∈ caseStops) :
    rd.kindAt i ≠ .keyword .kwFinally ∧ rd.kindAt i ≠ .keyword .kwElse := by
  cases h with
  | noStmts hend =>
    rcases hend with hk | hk
    · rw [hk]; exact ⟨nofun, nofun⟩
    · have := hstop _ hk
      constructor <;> intro h <;> rw [h] at this <;> revert this <;> decide
  | moreStmts _ hstmt =>
    have := hstmt.not_endsStmts
    constructor <;> intro h <;> rw [h] at this <;> cases this

theorem Derives.cases_kind (h : Derives rd H (.cases cx cs) i j) : rd.kindAt i ∈ caseStops := by
  cases h with
  | noCases hreads => rw [hreads.1]; decide
  | moreCases hcase =>
    cases hcase with
    | testCase hreads | defaultCase hreads => rw [hreads.1]; decide

theorem sequenceStops_of_semicolon {noIn : Bool} (hk : ts.kindAt j = .punct .semicolon) :
    SequenceStops ts (Halts ts) noIn j e :=
  (SequenceEnds.of_endsYield (hk ▸ rfl) (by rw [hk]; exact nofun)).2

theorem readsBack_moreStmts (ih : (Phrase.stmt cx s).ReadsBack ts)
    (ih' : (Phrase.stmts cx stop body).ReadsBack ts) :
    (Phrase.stmts cx stop (s :: body)).ReadsBack ts := by
  intro i j hprints hflush hfollow
  obtain ⟨i₁, hstmt, hbody⟩ := hprints.split
  have hbody' := ih' _ _ hbody hflush hfollow
  obtain ⟨hfinally, helse⟩ := hbody'.stmts_kind hfollow.2
  have hstmt' := ih _ _ hstmt (hbody.flush hflush) ⟨hfinally, fun hk => absurd hk helse⟩
  refine .moreStmts (fun hend => ?_) hstmt' hbody'
  have hstarts := hstmt'.not_endsStmts
  rcases hend with hk | hk
  · rw [hk] at hstarts
    cases hstarts
  · rw [endsStmts_of_mem_caseStops (hfollow.2 _ hk)] at hstarts
    cases hstarts

theorem Phrase.ReadsBack.condition {text : String} {i₁ i₂ : Nat}
    (h : (Phrase.condition cx e).ReadsBack ts) (word : Keyword) (hword : ts.Prints (put text) i i₁)
    (hmem : (text, [word.text, "("]) ∈ compounds) (htest : ts.Prints e.pieces i₁ i₂)
    (hclose : ts.Prints (put ")") i₂ j) (hflush : ts.Flush j) :
    ∃ i', ts.reading.Reads (.keyword word) i i' ∧ Spells ts.reading (.condition cx e) i' j := by
  obtain ⟨i', hword, hopen⟩ := (hword.compound _ hmem).split
  exact ⟨i', (hword.keyword word).reads, h _ _ ((hopen.append htest).append hclose) hflush trivial⟩

theorem readsBack_ret {v : Option Expr} (ih : (Phrase.optional cx v).ReadsBack ts) :
    (Phrase.stmt cx (.ret sp v)).ReadsBack ts := by
  intro i j hprints _ _
  obtain ⟨i₁, i₂, hreturn, hprints, hclose⟩ := hprints.split₃
  have hclose := Prints.mark .semicolon hclose
  have hreturn := hreturn.keyword .kwReturn
  have hvalue := ih _ _ hprints hclose.flush (by rw [hclose.kind]; rfl)
  cases hvalue with
  | left_out => exact .retNothing hreturn.reads (.mark hclose.reads) trivial
  | given hvalue =>
    exact .ret hreturn.reads (hprints.flush hclose.flush).breaks hvalue
      (sequenceStops_of_semicolon hclose.kind) (.mark hclose.reads) trivial

theorem varWord_of_prints (hprints : ts.Prints (put kind.text ++ stick " ") i j) :
    ts.Shows kind.kind kind.text i j := by
  obtain ⟨i₁, hword, hblank⟩ := hprints.split
  obtain rfl := prints_blank.mp hblank
  rw [← VarKind.text_kind] at hword ⊢
  exact hword.fixed (by cases kind <;> rfl)

theorem readsBack_switch (ih : (Phrase.condition cx e).ReadsBack ts)
    (ih' : (Phrase.cases cx cs).ReadsBack ts) :
    (Phrase.stmt cx (.switch sp e cs)).ReadsBack ts := by
  intro i j hprints hflush _
  change ts.Prints (Stmt.pieces _) i j at hprints
  rw [pieces_switch _ cx] at hprints
  obtain ⟨i₁, i₂, i₄, hswitch, htest, hbetween, hcases⟩ := hprints.split₄
  obtain ⟨i₃, hclose, hopen⟩ := (hbetween.compound [")", "\x7b"] (by decide)).split
  have hopen := Prints.mark .lBrace hopen
  obtain ⟨i', hword, hcondition⟩ := ih.condition .kwSwitch hswitch (by decide) htest hclose
    hopen.flush
  exact .switch hword hcondition hopen.reads (ih' _ _ hcases hflush trivial) trivial

theorem readsBack_tryCatchFinally {param : Option Binding} {handler finalizer : List Stmt}
    (ih : (Phrase.block cx body).ReadsBack ts)
    (ih' : (Phrase.handler cx param handler).ReadsBack ts)
    (ih'' : (Phrase.block cx finalizer).ReadsBack ts) :
    (Phrase.stmt cx (.tryCatchFinally sp body sp' param handler finalizer)).ReadsBack ts := by
  intro i j hprints hflush _
  change ts.Prints (Stmt.pieces _) i j at hprints
  rw [pieces_tryCatchFinally _ _ cx] at hprints
  obtain ⟨i₂, i₃, i₄, hprints, hhandler, hfinally, hfinalizer⟩ := hprints.split₄
  obtain ⟨i₁, htry, hbody⟩ := hprints.split
  have hfinally := hfinally.keyword .kwFinally
  exact .tryCatchFinally (htry.keyword .kwTry).reads
    (ih _ _ hbody (hhandler.flush hfinally.flush) trivial)
    (ih' _ _ hhandler hfinally.flush trivial) hfinally.reads
    (ih'' _ _ hfinalizer hflush trivial) trivial trivial

theorem readsBack_doWhile (ih : (Phrase.stmt cx s).ReadsBack ts)
    (ih' : (Phrase.condition cx e).ReadsBack ts) :
    (Phrase.stmt cx (.doWhile sp s e)).ReadsBack ts := by
  intro i j hprints _ _
  obtain ⟨i₂, i₃, i₄, hprints, hwhile, htest, hend⟩ := hprints.split₄
  obtain ⟨i₁, hdo, hstmt⟩ := hprints.split
  obtain ⟨i₅, hclose, hsemicolon⟩ := (hend.compound [")", ";"] (by decide)).split
  have hsemicolon := Prints.mark .semicolon hsemicolon
  obtain ⟨i', hword, hcondition⟩ := ih'.condition .kwWhile hwhile (by decide) htest hclose
    hsemicolon.flush
  have hflush := ((hwhile.append htest).append hclose).flush hsemicolon.flush
  exact .doWhile (hdo.keyword .kwDo).reads
    (ih _ _ hstmt hflush (by rw [show ts.kindAt i₂ = _ from hword.1]; exact ⟨nofun, nofun⟩))
    hword hcondition (.yes hsemicolon.reads) trivial

theorem readsBack_ifElse {yes no : Stmt} (ih : (Phrase.condition cx e).ReadsBack ts)
    (ih' : (Phrase.stmt cx yes).ReadsBack ts) (hopen : endsOpen yes = false)
    (ih'' : (Phrase.stmt cx no).ReadsBack ts) :
    (Phrase.stmt cx (.ifElse sp e yes no)).ReadsBack ts := by
  intro i j hprints hflush hfollow
  obtain ⟨i₃, i₄, i₅, hprints, hyes, helse, hno⟩ := hprints.split₄
  obtain ⟨i₁, i₂, hif, htest, hclose⟩ := hprints.split₃
  have helse := helse.keyword .kwElse
  obtain ⟨i', hword, hcondition⟩ := ih.condition .kwIf hif (by decide) htest hclose
    (hyes.flush helse.flush)
  exact .ifElse hword hcondition
    (ih' _ _ hyes helse.flush (by rw [helse.kind]; exact ⟨nofun, fun _ => hopen⟩))
    helse.reads (ih'' _ _ hno hflush hfollow) trivial

theorem forWord_of_prints (hprints : ts.Prints (put "for(") i j) :
    ∃ i₁, ts.reading.Reads (.keyword .kwFor) i i₁ ∧ ts.reading.Reads (.punct .lParen) i₁ j := by
  obtain ⟨i₁, hfor, hopen⟩ := (hprints.compound ["for", "("] (by decide)).split
  exact ⟨i₁, (hfor.keyword .kwFor).reads, (Prints.mark .lParen hopen).reads⟩

theorem readsBack_forIn {left : ForInit} (ih : (Phrase.forLeft cx left).ReadsBack ts)
    (ih' : (Phrase.expr cx.allowIn e).ReadsBack ts) (ih'' : (Phrase.stmt cx s).ReadsBack ts) :
    (Phrase.stmt cx (.forIn sp left e s)).ReadsBack ts := by
  intro i j hprints hflush hfollow
  obtain ⟨i₄, i₅, i₆, hprints, hright, hclose, hstmt⟩ := hprints.split₄
  obtain ⟨i₂, i₃, hfor, hleft, hin⟩ := hprints.split₃
  obtain ⟨i₁, hfor, hopen⟩ := forWord_of_prints hfor
  have hin := hin.keyword .kwIn
  have hclose := hclose.mark .rParen
  exact .forIn hfor hopen (ih _ _ hleft hin.flush trivial) hin.reads
    (ih' _ _ hright hclose.flush (.of_kind hclose.kind rfl)) hclose.reads
    (ih'' _ _ hstmt hflush hfollow) trivial

theorem readsBack_forOf {left : ForInit} (ih : (Phrase.forLeft cx left).ReadsBack ts)
    (ih' : (Phrase.expr cx.allowIn e).ReadsBack ts) (hlevel : Level.assignment ≤ e.level)
    (ih'' : (Phrase.stmt cx s).ReadsBack ts) :
    (Phrase.stmt cx (.forOf sp left e s)).ReadsBack ts := by
  intro i j hprints hflush hfollow
  obtain ⟨i₄, i₅, i₆, hprints, hright, hclose, hstmt⟩ := hprints.split₄
  obtain ⟨i₂, i₃, hfor, hleft, hof⟩ := hprints.split₃
  obtain ⟨i₁, hfor, hopen⟩ := forWord_of_prints hfor
  have hof := hof.contextual "of" (by decide)
  have hclose := hclose.mark .rParen
  exact .forOf hfor hopen (ih _ _ hleft hof.flush trivial) hof.readsWord
    (ih'.fit hlevel hright hclose.flush (.of_kind hclose.kind rfl)) hlevel hclose.reads
    (ih'' _ _ hstmt hflush hfollow) trivial

theorem readsBack_forLoop {init : ForInit} {test update : Option Expr}
    (ih : (Phrase.forInit cx init).ReadsBack ts)
    (ih' : (Phrase.optional cx.allowIn test).ReadsBack ts)
    (ih'' : (Phrase.optional cx.allowIn update).ReadsBack ts)
    (ih₃ : (Phrase.stmt cx s).ReadsBack ts) :
    (Phrase.stmt cx (.forLoop sp init test update s)).ReadsBack ts := by
  intro i j hprints hflush hfollow
  obtain ⟨i₆, i₇, i₈, hprints, hupdate, hclose, hstmt⟩ := hprints.split₄
  obtain ⟨i₃, i₄, i₅, hprints, hfirst, htest, hsecond⟩ := hprints.split₄
  obtain ⟨i₂, hfor, hinit⟩ := hprints.split
  obtain ⟨i₁, hfor, hopen⟩ := forWord_of_prints hfor
  have hclose := hclose.mark .rParen
  have hsecond := hsecond.mark .semicolon
  have hfirst := hfirst.mark .semicolon
  exact .forLoop hfor hopen (ih _ _ hinit hfirst.flush hfirst.kind) hfirst.reads
    (ih' _ _ htest hsecond.flush (by rw [hsecond.kind]; rfl)) hsecond.reads
    (ih'' _ _ hupdate hclose.flush (by rw [hclose.kind]; rfl)) hclose.reads
    (ih₃ _ _ hstmt hflush hfollow) trivial

theorem readsBack_importFrom {source : String} {specifiers : List ImportSpecifier} (hts : ts.Ended)
    (ih : (Phrase.importClause specifiers).ReadsBack ts) (hsource : IsString source) :
    (Phrase.stmt cx (.importFrom sp source specifiers)).ReadsBack ts := by
  intro i j hprints _ _
  obtain ⟨i₁, i₃, i₄, himport, hclause, hstring, hclose⟩ := hprints.split₄
  have himport := Prints.keyword .kwImport (himport.compound ["import"] (by decide))
  have hclose := Prints.mark .semicolon hclose
  have hstring := hsource.reads hts hstring
  split at hclause
  · rename_i hempty
    obtain rfl := List.isEmpty_iff.mp hempty
    obtain rfl := prints_nil.mp hclause
    exact .importOnly himport.reads hstring (.mark hclose.reads) trivial
  · rename_i hempty
    obtain ⟨i₂, hclause, hfrom⟩ := hclause.split
    have hfrom := (hfrom.compound ["from"] (by decide)).contextual "from" (by decide)
    have hne : specifiers ≠ [] := fun h => hempty (List.isEmpty_iff.mpr h)
    exact .importFrom himport.reads
      (ih _ _ hclause hfrom.flush ⟨hne, fun hk => nomatch hfrom.kind.symm.trans hk⟩)
      hfrom.readsWord hstring (.mark hclose.reads) trivial

theorem readsBack_clauseBoth {name : String} {rest : List ImportSpecifier} (h : IsVariable name)
    (ih : (Phrase.importList rest).ReadsBack ts) :
    (Phrase.importClause (.default sp name :: rest)).ReadsBack ts := by
  intro i j hprints hflush hfollow
  change ts.Prints (ImportSpecifier.clausePieces _) i j at hprints
  rw [clausePieces_default] at hprints
  obtain ⟨i₁, hname, hrest⟩ := hprints.split
  obtain ⟨k, hk, hname⟩ := hname.variable h
  split at hrest
  · rename_i hempty
    obtain rfl := List.isEmpty_iff.mp hempty
    obtain rfl := prints_nil.mp hrest
    exact .clauseDefault (hname.kind ▸ hk) hname.text hname.reads.2 hfollow.2
  · rename_i hempty
    obtain ⟨i₂, hcomma, hrest⟩ := hrest.split
    exact .clauseBoth (hname.kind ▸ hk) hname.text hname.reads.2 (hcomma.mark .comma).reads
      (ih _ _ hrest hflush fun h => hempty (List.isEmpty_iff.mpr h))

theorem readsBack_exportedValue (hlead : exprLead e = .other ∨ exprLead e = .brace)
    (ih : (Phrase.expr cx e).ReadsBack ts) (hlevel : Level.assignment ≤ e.level) :
    (Phrase.exported cx e).ReadsBack ts := by
  intro i j hprints _ _
  obtain ⟨i₁, hprints, hclose⟩ := hprints.split
  rw [declares_of_exprLead hlead, if_neg Bool.false_ne_true] at hclose
  have hclose := Prints.mark .semicolon hclose
  have hspells := ih.fit hlevel hprints hclose.flush (.of_kind hclose.kind rfl)
  have hat := hspells.leadAt _ rfl
  refine .exportedValue (fun hk => ?_) (fun hk => ?_) (fun hk => ?_) hspells hlevel
    (halts_of_endsYield (hclose.kind ▸ rfl)) (.mark hclose.reads)
  · rw [hat.function.mp hk] at hlead
    exact absurd hlead (by decide)
  · rw [hat.classWord.mp hk] at hlead
    exact absurd hlead (by decide)
  · rw [hat.asyncFunction.mp hk] at hlead
    exact absurd hlead (by decide)

theorem readsBack_exportNamed {source : Option String} {specifiers : List ExportSpecifier}
    (hts : ts.Ended) (ih : (Phrase.items .top .exportName specifiers).ReadsBack ts)
    (hsource : ∀ text ∈ source, IsString text) :
    (Phrase.stmt cx (.exportNamed sp source specifiers)).ReadsBack ts := by
  intro i j hprints _ _
  change ts.Prints (Stmt.pieces _) i j at hprints
  rw [pieces_exportNamed] at hprints
  obtain ⟨i₂, i₃, i₄, hwords, hitems, hfrom, hclose⟩ := hprints.split₄
  obtain ⟨i₁, hexport, hopen⟩ := (hwords.compound ["export", "\x7b"] (by decide)).split
  have hexport := hexport.keyword .kwExport
  have hopen := Prints.mark .lBrace hopen
  have hclose := Prints.mark .semicolon hclose
  have hitems := ih _ _ hitems (hfrom.flush hclose.flush) trivial
  cases source with
  | none =>
    obtain rfl := prints_nil.mp hfrom
    exact .exportNames hexport.reads hopen.reads hitems
      (fun h => nomatch hclose.kind.symm.trans h.1) (.mark hclose.reads) trivial
  | some source =>
    obtain ⟨i₅, hfrom, hstring⟩ := hfrom.split
    have hfrom := (hfrom.compound ["from"] (by decide)).contextual "from" (by decide)
    exact .exportFrom hexport.reads hopen.reads hitems hfrom.readsWord
      ((hsource source rfl).reads hts hstring) (.mark hclose.reads) trivial

theorem Formed.decls_ne_nil (h : Formed .script (.decls cx ds)) : ds ≠ [] := by
  cases h with
  | lastDecl | moreDecls => exact List.cons_ne_nil _ _

/-!
# All phrases

There is one case for each rule for well-formed trees.
-/

/-- What is printed for a well-formed tree is read back as this tree. -/
theorem Formed.readsBack {ph : Phrase} (hts : ts.Ended) (h : Formed .script ph) :
    ph.ReadsBack ts := by
  induction h with intro i j hprints hflush hfollow
  | null => exact .null (Prints.keyword .kwNull hprints).reads trivial
  | @bool _ _ value =>
    cases value with
    | true => exact .trueWord (Prints.keyword .kwTrue hprints).reads trivial
    | false => exact .falseWord (Prints.keyword .kwFalse hprints).reads trivial
  | this => exact .this (Prints.keyword .kwThis hprints).reads trivial
  | super => exact .super (Prints.keyword .kwSuper hprints).reads trivial
  | number h =>
    have hshows := Prints.word hprints h (.inr (.inr rfl))
    have hends := hfollow.endsOperand
    have hnext : ∀ k, endsOperand k = false → k ≠ .space → (ts.token j).kind ≠ k := by
      rintro k hk hspace rfl
      rcases hflush.token with htoken | htoken
      · exact hspace htoken
      · rw [← htoken, hk] at hends
        cases hends
    exact .number hshows.reads hshows.text (hnext .identifier rfl (by simp))
      (hnext .number rfl (by simp))
      trivial
  | string h => exact .string (h.reads hts hprints) trivial
  | quasi _ ih => exact .quasi (ih _ _ hprints hflush trivial) trivial
  | regex h => exact h.elim
  | ident h =>
    obtain ⟨k, hk, hword⟩ := h
    unfold namesVariable at hk
    rw [Bool.or_eq_true, decide_eq_true_eq, decide_eq_true_eq] at hk
    rcases hk with rfl | rfl
    · exact .ident (Prints.identifier hprints hword).readsWord trivial
    · have hshows := Prints.word hprints hword (.inl rfl)
      refine .asyncIdent hshows.reads hshows.text (fun hfunction => ?_) trivial
      have hends := hfollow.endsOperand
      rw [hfunction] at hends
      cases hends
  | array _ ih =>
    change ts.Prints (Expr.pieces _) i j at hprints
    rw [pieces_array] at hprints
    obtain ⟨i₁, hopen, hitems⟩ := hprints.split
    exact .array (hopen.mark .lBracket).reads (ih _ _ hitems hflush trivial) trivial
  | object _ ih =>
    change ts.Prints (Expr.pieces _) i j at hprints
    rw [pieces_object] at hprints
    obtain ⟨i₁, hopen, hitems⟩ := hprints.split
    exact .object (hopen.mark .lBrace).reads (ih _ _ hitems hflush trivial) trivial
  | function _ ih => exact .function (ih _ _ hprints hflush trivial) trivial
  | «class» _ ih => exact .class (ih _ _ hprints hflush trivial) trivial
  | paren _ ih =>
    obtain ⟨i₁, i₂, hopen, hinner, hclose⟩ := hprints.split₃
    have hclose := hclose.mark .rParen
    exact .paren (hopen.mark .lParen).reads
      (ih _ _ hinner hclose.flush (.of_kind hclose.kind rfl)) hclose.reads trivial
  | dot _ h h' ih => exact readsBack_dot ih h h' i j hprints hflush hfollow
  | index _ hobject _ ih ih' =>
    obtain ⟨i₁, hfront, hprints⟩ := hprints.split
    obtain ⟨i₂, i₃, hopen, hinner, hclose⟩ := hprints.split₃
    have hopen := hopen.mark .lBracket
    have hclose := hclose.mark .rBracket
    exact .index (ih.fit (by rw [hobject.1]; decide) hfront hopen.flush
      (.of_object hopen.kind hobject rfl)) hobject hopen.reads
      (ih' _ _ hinner hclose.flush (.of_kind hclose.kind rfl)) hclose.reads trivial
  | call _ hobject _ ih ih' =>
    change ts.Prints (_ ++ parens (commas (Expr.listPieces _))) i j at hprints
    rw [pieces_args] at hprints
    obtain ⟨i₁, hfront, hprints⟩ := hprints.split
    obtain ⟨i₂, hopen, hargs⟩ := hprints.split
    have hopen := hopen.mark .lParen
    exact .call (ih.fit (by rw [hobject.1]; decide) hfront hopen.flush
      (.of_object hopen.kind hobject rfl)) hobject hopen.reads (ih' _ _ hargs hflush trivial)
      trivial
  | tagged _ hobject _ ih ih' =>
    obtain ⟨i₁, hfront, hquasi⟩ := hprints.split
    have hspells := ih' _ _ hquasi hflush trivial
    exact .tagged (ih.fit (by rw [hobject.1]; decide) hfront (hquasi.flush hflush)
      (.of_object (of_decide_eq_true hspells.opens) hobject rfl)) hobject hspells trivial
  | new _ h _ ih ih' => exact readsBack_new ih h ih' i j hprints hflush hfollow
  | newBare _ h ih => exact readsBack_newBare ih h i j hprints hflush hfollow
  | @unary _ _ op _ _ hlevel ih =>
    obtain ⟨i₁, hop, harg⟩ := hprints.split
    rw [← UnaryOp.text_kind] at hop
    exact .unary (hop.fixed (by cases op <;> rfl)).reads op.ofKind?_kind
      (ih.fit hlevel harg hflush (hfollow.operand (Nat.lt_of_lt_of_le (by decide) hlevel)
        fun h => by cases h.1)) hlevel trivial
  | await hasync _ hlevel ih =>
    obtain ⟨i₁, hawait, harg⟩ := hprints.split
    exact .await (hawait.keyword .kwAwait).reads hasync
      (ih.fit hlevel harg hflush (hfollow.operand (Nat.lt_of_lt_of_le (by decide) hlevel)
        fun h => by cases h.1)) hlevel trivial
  | @leading _ _ op _ _ hlevel ih =>
    obtain ⟨i₁, hop, harg⟩ := hprints.split
    rw [← UpdateOp.text_kind] at hop
    exact .leading (hop.fixed (by cases op <;> rfl)).reads op.ofKind?_kind
      (ih.fit hlevel harg hflush (hfollow.operand (Nat.lt_of_lt_of_le (by decide) hlevel)
        fun h => by cases h.1)) hlevel trivial
  | @trailing _ _ op _ _ hlevel ih =>
    obtain ⟨i₁, harg, hop⟩ := hprints.split
    rw [← UpdateOp.text_kind] at hop
    have hop := hop.fixed (by cases op <;> rfl)
    exact .trailing (ih.fit (by rw [hlevel]; decide) harg hop.flush
      (.of_operand hop.kind (Level.conditional_lt_of_closed hlevel) (by cases op <;> rfl)
        (by cases op <;> rfl))) hlevel hop.flush.breaks hop.reads op.ofKind?_kind trivial
  | binary _ h hop _ h' ih ih' => exact readsBack_binary ih h hop ih' h' i j hprints hflush hfollow
  | conditional _ h _ h' _ h'' ih ih' ih'' =>
    exact readsBack_conditional ih h ih' h' ih'' h'' i j hprints hflush hfollow
  | assign _ h _ h' ih ih' => exact readsBack_assign ih h ih' h' i j hprints hflush hfollow
  | assignPattern _ htarget _ hvalue ih ih' =>
    obtain ⟨i₁, i₂, htargetPrints, heq, hvaluePrints⟩ := hprints.split₃
    have heq := heq.mark .eq
    have hspells := ih _ _ htargetPrints heq.flush trivial
    obtain ⟨mark, hmark⟩ : ∃ mark, ts.kindAt i = .punct mark := by
      cases hspells with
      | bound => cases htarget
      | boundArray hopen | boundObject hopen => exact ⟨_, hopen.1⟩
    exact .assignPattern hspells hmark heq.reads
      (ih'.fit hvalue hvaluePrints hflush (.inl (hfollow.ends rfl))) hvalue trivial
  | arrow _ hlead _ hbody ih ih' =>
    change ts.Prints (_ ++ parens (commas (Param.listPieces _)) ++ _ ++ _) i j at hprints
    rw [pieces_params] at hprints
    obtain ⟨i₁, hhead, hbodyPrints⟩ := hprints.split
    have hspells := ih'.fit hbody hbodyPrints hflush (.inl (hfollow.ends rfl))
    exact .arrow (ih _ _ hhead (hbodyPrints.flush hflush) trivial)
      (fun hk => hlead ((hspells.leadAt _ rfl).brace.mp hk)) hspells hbody trivial
  | arrowBlock _ _ ih ih' =>
    change ts.Prints (_ ++ parens (commas (Param.listPieces _)) ++ _ ++ _) i j at hprints
    rw [pieces_params] at hprints
    obtain ⟨i₁, hhead, hbodyPrints⟩ := hprints.split
    exact .arrowBlock (ih _ _ hhead (hbodyPrints.flush hflush) trivial)
      (ih' _ _ hbodyPrints hflush trivial) trivial
  | yieldValue hgenerator _ h ih => exact readsBack_yield hgenerator ih h i j hprints hflush hfollow
  | yieldNothing hgenerator =>
    exact .yieldNothing (Prints.keyword .kwYield hprints).reads hgenerator
      (.inr (hfollow.ends rfl)) trivial
  | sequence _ hlevel _ ih ih' =>
    change ts.Prints (Expr.pieces _) i j at hprints
    rw [pieces_sequence] at hprints
    obtain ⟨i₁, hfirst, hothers⟩ := hprints.split
    have hspells := ih' _ _ hothers hflush (hfollow.ends rfl)
    exact .sequence (ih.fit hlevel hfirst (hothers.flush hflush)
      (.of_kind hspells.others_kind rfl)) hlevel hspells trivial
  | @other _ e _ hlevel ih =>
    change ts.Prints (put "," ++ e.fit Level.assignment e.pieces ++ []) i j at hprints
    rw [List.append_nil] at hprints
    obtain ⟨i₁, hcomma, hprints⟩ := hprints.split
    exact .other (hcomma.mark .comma).reads (ih.fit hlevel hprints hflush (.inl hfollow)) hlevel
  | @moreOthers cx e es _ hlevel _ ih ih' =>
    change ts.Prints (put "," ++ e.fit Level.assignment e.pieces ++ (Phrase.others cx es).pieces)
      i j at hprints
    obtain ⟨i₁, i₂, hcomma, hfirst, hothers⟩ := hprints.split₃
    have hspells := ih' _ _ hothers hflush hfollow
    exact .moreOthers (hcomma.mark .comma).reads (ih.fit hlevel hfirst (hothers.flush hflush)
      (.of_kind hspells.others_kind rfl)) hlevel hspells
  | @noItems _ c => exact .noItems (Prints.mark c.close hprints).reads
  | @hole _ c x xs hhole _ ih =>
    obtain ⟨hpieces, hisHole⟩ := pieces_hole hhole
    change ts.Prints (c.listPieces (x :: xs)) i j at hprints
    rw [ItemClass.listPieces, hpieces, hisHole, Bool.not_true, Bool.and_false,
      if_neg Bool.false_ne_true, List.nil_append] at hprints
    obtain ⟨i₁, hcomma, hitems⟩ := hprints.split
    exact .hole hhole (hcomma.mark .comma).reads (ih _ _ hitems hflush trivial)
  | moreItems _ _ ih ih' => exact readsBack_moreItems ih ih' i j hprints hflush hfollow
  | @spreadArg _ sp e _ hlevel ih =>
    change ts.Prints ((Expr.spread sp e).fit Level.assignment (Expr.spread sp e).pieces) i j
      at hprints
    rw [Expr.fit_of_le (Nat.le_of_ble_eq_true rfl)] at hprints
    obtain ⟨i₁, hspread, hprints⟩ := hprints.split
    exact .spreadArg (hspread.mark .spread).reads
      (ih.fit hlevel hprints hflush (.inl hfollow)) hlevel trivial
  | plainArg _ hlevel ih => exact .plainArg (ih.fit hlevel hprints hflush (.inl hfollow)) hlevel
  | element _ ih => exact .element (ih _ _ hprints hflush (EndsItem.ends hfollow))
  | spreadProperty _ hlevel ih =>
    obtain ⟨i₁, hspread, hprints⟩ := hprints.split
    exact .spreadProperty (hspread.mark .spread).reads
      (ih.fit hlevel hprints hflush (.inl (EndsItem.ends hfollow))) hlevel
  | methodProperty h _ _ ih ih' =>
    exact readsBack_methodProperty h ih ih' i j hprints hflush hfollow
  | pair _ _ hlevel ih ih' =>
    obtain ⟨i₁, i₂, hkey, hcolon, hvalue⟩ := hprints.split₃
    have hcolon := hcolon.mark .colon
    have hkey' := ih _ _ hkey hcolon.flush trivial
    exact .pair (hkey'.methodStartAt (by rw [hcolon.kind]; rfl)) hkey' hcolon.reads
      (ih'.fit hlevel hvalue hflush (.inl (EndsItem.ends hfollow))) hlevel
  | shorthand h =>
    have hshows := Prints.identifier hprints h
    have hends : followsName (ts.kindAt j) = true ∧ ts.kindAt j ≠ .punct .lParen ∧
        ts.kindAt j ≠ .punct .colon := by
      rcases hfollow with hk | hk <;> rw [hk] <;> exact ⟨rfl, by decide, by decide⟩
    exact .shorthand (.named (by rw [hshows.reads.2.1]; exact hends.1)
      (.no fun hstar => by cases hshows.kind.symm.trans hstar)) hshows.readsWord hends.2.1 hends.2.2
  | arrayRest _ ih =>
    obtain ⟨i₁, hspread, hbinding⟩ := hprints.split
    exact .arrayRest (hspread.mark .spread).reads (ih _ _ hbinding hflush trivial)
  | arrayItem _ _ ih ih' =>
    obtain ⟨i₁, hbinding, hvalue⟩ := hprints.split
    exact .arrayItem (ih _ _ hbinding (hvalue.flush hflush) trivial)
      (ih' _ _ hvalue hflush (EndsItem.ends hfollow))
  | objectRest h =>
    obtain ⟨i₁, hspread, hname⟩ := hprints.split
    exact .objectRest (hspread.mark .spread).reads (hname.identifier h).readsWord trivial
  | objectPair _ _ _ ih ih' ih'' =>
    obtain ⟨i₁, i₂, i₃, hkey, hcolon, hbinding, hvalue⟩ := hprints.split₄
    have hcolon := hcolon.mark .colon
    exact .objectPair (ih _ _ hkey hcolon.flush trivial) hcolon.reads
      (ih' _ _ hbinding (hvalue.flush hflush) trivial)
      (ih'' _ _ hvalue hflush (EndsItem.ends hfollow))
  | objectShort h _ ih =>
    obtain ⟨i₁, hname, hvalue⟩ := hprints.split
    have hvalue' := ih _ _ hvalue hflush (EndsItem.ends hfollow)
    refine .objectShort (hname.identifier h).readsWord ?_ hvalue' trivial
    rcases hvalue'.value_kind with hk | rfl
    · exact fun h => by cases hk.symm.trans h
    · rcases hfollow with hk | hk <;> rw [hk] <;> decide
  | restParam _ ih =>
    obtain ⟨i₁, hspread, hbinding⟩ := hprints.split
    exact .restParam (hspread.mark .spread).reads (ih _ _ hbinding hflush trivial) trivial
  | plainParam _ _ ih ih' =>
    obtain ⟨i₁, hbinding, hvalue⟩ := hprints.split
    exact .plainParam (ih _ _ hbinding (hvalue.flush hflush) trivial)
      (ih' _ _ hvalue hflush (EndsItem.ends hfollow)) trivial
  | imported h h' =>
    obtain ⟨k, hk, ⟨rfl, hshows⟩ | ⟨hne, i₁, i₂, hshows, has, hname⟩⟩ := renamedAt hprints h
    · exact .imported (hshows.kind ▸ hk) hshows.text hshows.reads.2
        fun has => hfollow.not_identifier has.1
    · obtain ⟨k', hk', hname⟩ := hname.variable (h'.resolve_left hne)
      exact .importedAs (hshows.kind ▸ hk) hshows.text hshows.reads.2 has (hname.kind ▸ hk')
        hname.text hname.reads.2
  | exportedName h h' => exact readsBack_exportedName h h' i j hprints hflush hfollow
  | keyName h =>
    obtain ⟨k, hk, hshows⟩ := Prints.name hprints h
    exact .keyName (hshows.kind ▸ hk) hshows.text hshows.reads.2
  | keyString h => exact .keyString (h.reads hts hprints)
  | keyNumber h =>
    have hshows := Prints.word hprints h (.inr (.inr rfl))
    exact .keyNumber hshows.reads hshows.text
  | keyComputed _ hlevel ih =>
    obtain ⟨i₁, i₂, hopen, hinner, hclose⟩ := hprints.split₃
    have hclose := hclose.mark .rBracket
    exact .keyComputed (hopen.mark .lBracket).reads
      (ih.fit hlevel hinner hclose.flush (.of_kind hclose.kind rfl)) hlevel hclose.reads
  | bound h =>
    obtain ⟨k, hk, hshows⟩ := Prints.variable hprints h
    exact .bound (hshows.kind ▸ hk) hshows.text hshows.reads.2 trivial
  | boundArray _ ih =>
    change ts.Prints (Binding.pieces _) i j at hprints
    rw [pieces_arrayPattern] at hprints
    obtain ⟨i₁, hopen, hitems⟩ := hprints.split
    exact .boundArray (hopen.mark .lBracket).reads (ih _ _ hitems hflush trivial) trivial
  | boundObject _ ih =>
    change ts.Prints (Binding.pieces _) i j at hprints
    rw [pieces_objectPattern] at hprints
    obtain ⟨i₁, hopen, hitems⟩ := hprints.split
    exact .boundObject (hopen.mark .lBrace).reads (ih _ _ hitems hflush trivial) trivial
  | noValue =>
    obtain rfl := prints_nil.mp hprints
    refine .noValue fun hk => ?_
    change endsYield (ts.kindAt i) = true at hfollow
    rw [show ts.kindAt i = _ from hk] at hfollow
    cases hfollow
  | value _ hlevel ih =>
    obtain ⟨i₁, heq, hprints⟩ := hprints.split
    exact .value (heq.mark .eq).reads (ih.fit hlevel hprints hflush (.inl hfollow)) hlevel
      (halts_of_endsYield hfollow)
  | template h => exact h.reads hts hprints
  | templateRest | substitution => exact hfollow.elim
  | @func f _ ih =>
    change ts.Prints f.pieces i j at hprints
    rw [pieces_func] at hprints
    obtain ⟨i₁, hasync, hrest⟩ := hprints.split
    have hspells := ih _ _ hrest hflush trivial
    cases hf : f.isAsync with
    | true =>
      rw [hf] at hasync
      exact .asyncFunc hf (Prints.keyword .kwAsync hasync).reads hspells (.inl trivial)
    | false =>
      rw [hf] at hasync
      obtain rfl := prints_nil.mp hasync
      exact .func hf hspells trivial
  | funcRest h _ ih => exact readsBack_funcRest h ih i j hprints hflush hfollow
  | callable _ _ ih ih' =>
    obtain ⟨i₁, i₂, hopen, hparams, hbody⟩ := hprints.split₃
    exact .callable (hopen.mark .lParen).reads (ih _ _ hparams (hbody.flush hflush) trivial)
      (ih' _ _ hbody hflush trivial)
  | arrowHead _ ih => exact readsBack_arrowHead ih i j hprints hflush hfollow
  | classRest h _ _ ih ih' => exact readsBack_classRest h ih ih' i j hprints hflush hfollow
  | noParent =>
    obtain rfl := prints_nil.mp hprints
    exact .noParent fun hk => by cases hfollow.symm.trans hk
  | parent _ hlevel ih =>
    obtain ⟨i₁, hextends, hprints⟩ := hprints.split
    exact .parent (hextends.keyword .kwExtends).reads (ih.fit (by rw [hlevel]; decide) hprints
      hflush (.of_operand hfollow (Level.conditional_lt_of_closed hlevel) rfl rfl)) hlevel
  | noMembers => exact .noMembers (Prints.mark .rBrace hprints).reads
  | @moreMembers cx _ _ _ _ ih ih' =>
    change ts.Prints (Phrase.pieces (.members cx _)) i j at hprints
    rw [pieces_moreMembers] at hprints
    obtain ⟨i₁, hmember, hmembers⟩ := hprints.split
    exact .moreMembers (ih _ _ hmember (hmembers.flush hflush) trivial)
      (ih' _ _ hmembers hflush trivial)
  | method h _ _ ih ih' => exact readsBack_method h ih ih' i j hprints hflush hfollow
  | field _ _ ih ih' => exact readsBack_field ih ih' i j hprints hflush hfollow
  | block _ ih =>
    obtain ⟨i₁, i₂, hopen, hinner, hclose⟩ := hprints.split₃
    have hclose := hclose.mark .rBrace
    refine .block (hopen.mark .lBrace).reads (ih _ _ hinner hclose.flush ?_) hclose.reads
    rw [hclose.kind]
    exact ⟨.inr (List.mem_singleton.mpr rfl), by decide⟩
  | noStmts =>
    obtain rfl := prints_nil.mp hprints
    exact .noStmts hfollow.1
  | moreStmts _ _ ih ih' => exact readsBack_moreStmts ih ih' i j hprints hflush hfollow
  | condition _ ih =>
    obtain ⟨i₁, i₂, hopen, hinner, hclose⟩ := hprints.split₃
    have hclose := hclose.mark .rParen
    exact .condition (hopen.mark .lParen).reads
      (ih _ _ hinner hclose.flush (.of_kind hclose.kind rfl)) hclose.reads
  | left_out =>
    obtain rfl := prints_nil.mp hprints
    exact .left_out
  | given _ ih => exact .given (ih.fit (Nat.zero_le _) hprints hflush (.inl hfollow))
  | lastDecl _ ih =>
    change ts.Prints (commas [_]) i j at hprints
    rw [ItemClass.commas_singleton] at hprints
    exact .lastDecl (ih _ _ hprints hflush (by rw [hfollow]; rfl))
      (fun hk => by cases hfollow.symm.trans hk)
  | @moreDecls cx _ _ _ hrest ih ih' =>
    obtain ⟨d', ds, rfl⟩ := List.exists_cons_of_ne_nil hrest.decls_ne_nil
    change ts.Prints (Phrase.pieces (.decls cx _)) i j at hprints
    rw [pieces_moreDecls] at hprints
    obtain ⟨i₁, i₂, hdecl, hcomma, hdecls⟩ := hprints.split₃
    have hcomma := hcomma.mark .comma
    exact .moreDecls (ih _ _ hdecl hcomma.flush (by rw [hcomma.kind]; rfl)) hcomma.reads
      (ih' _ _ hdecls hflush hfollow)
  | decl _ _ ih ih' =>
    obtain ⟨i₁, hbinding, hvalue⟩ := hprints.split
    exact .decl (ih _ _ hbinding (hvalue.flush hflush) trivial) (ih' _ _ hvalue hflush hfollow)
      trivial
  | labeled h _ ih =>
    obtain ⟨i₁, i₂, hlabel, hcolon, hstmt⟩ := hprints.split₃
    exact .labeled (hlabel.identifier h).readsWord (hcolon.mark .colon).reads
      (ih _ _ hstmt hflush hfollow) trivial
  | exprStmt hlead _ ih =>
    obtain ⟨i₁, hprints, hclose⟩ := hprints.split
    have hclose := Prints.mark .semicolon hclose
    have hspells := ih _ _ hprints hclose.flush (.of_kind hclose.kind rfl)
    exact .exprStmt (hspells.not_opensStatement hlead fun hk => by cases hclose.kind.symm.trans hk)
      hspells (sequenceStops_of_semicolon hclose.kind) (.mark hclose.reads) trivial
  | blockStmt _ ih => exact .blockStmt (ih _ _ hprints hflush trivial) trivial
  | empty => exact .empty (Prints.mark .semicolon hprints).reads trivial
  | throw _ ih =>
    obtain ⟨i₁, i₂, hthrow, hprints, hclose⟩ := hprints.split₃
    have hclose := Prints.mark .semicolon hclose
    exact .throw (hthrow.keyword .kwThrow).reads (hprints.flush hclose.flush).breaks
      (ih _ _ hprints hclose.flush (.of_kind hclose.kind rfl))
      (sequenceStops_of_semicolon hclose.kind) (.mark hclose.reads) trivial
  | «switch» _ _ ih ih' => exact readsBack_switch ih ih' i j hprints hflush hfollow
  | noCases => exact .noCases (Prints.mark .rBrace hprints).reads
  | @moreCases cx _ _ _ _ ih ih' =>
    change ts.Prints (Phrase.pieces (.cases cx _)) i j at hprints
    rw [pieces_moreCases] at hprints
    obtain ⟨i₁, hcase, hcases⟩ := hprints.split
    have hcases' := ih' _ _ hcases hflush trivial
    exact .moreCases (ih _ _ hcase (hcases.flush hflush) hcases'.cases_kind) hcases'
  | testCase _ _ ih ih' =>
    obtain ⟨i₁, i₂, i₃, hcase, htest, hcolon, hbody⟩ := hprints.split₄
    have hcolon := hcolon.mark .colon
    exact .testCase (Prints.keyword .kwCase hcase).reads
      (ih.fit (Nat.zero_le _) htest hcolon.flush (.of_kind hcolon.kind rfl)) hcolon.reads
      (ih' _ _ hbody hflush ⟨.inr hfollow, fun _ => id⟩) trivial
  | defaultCase _ ih =>
    obtain ⟨i₁, i₂, i₃, hdefault, htest, hcolon, hbody⟩ := hprints.split₄
    obtain rfl := prints_nil.mp htest
    exact .defaultCase (Prints.keyword .kwDefault hdefault).reads (hcolon.mark .colon).reads
      (ih _ _ hbody hflush ⟨.inr hfollow, fun _ => id⟩) trivial
  | @tryCatch cx _ _ _ _ _ _ _ ih ih' =>
    change ts.Prints (Stmt.pieces _) i j at hprints
    rw [pieces_tryCatch _ _ cx] at hprints
    obtain ⟨i₁, i₂, htry, hbody, hhandler⟩ := hprints.split₃
    exact .tryCatch (htry.keyword .kwTry).reads (ih _ _ hbody (hhandler.flush hflush) trivial)
      (ih' _ _ hhandler hflush trivial) hfollow.1 trivial trivial
  | tryFinally _ _ ih ih' =>
    obtain ⟨i₁, i₂, i₃, htry, hbody, hfinally, hfinalizer⟩ := hprints.split₄
    have hfinally := hfinally.keyword .kwFinally
    exact .tryFinally (htry.keyword .kwTry).reads (ih _ _ hbody hfinally.flush trivial)
      hfinally.reads (ih' _ _ hfinalizer hflush trivial) trivial
  | tryCatchFinally _ _ _ ih ih' ih'' =>
    exact readsBack_tryCatchFinally ih ih' ih'' i j hprints hflush hfollow
  | handler _ _ ih ih' =>
    obtain ⟨i₁, i₄, hcatch, hparam, hbody⟩ := hprints.split₃
    obtain ⟨i₂, i₃, hopen, hparam, hclose⟩ := hparam.split₃
    have hclose := hclose.mark .rParen
    exact .handler (hcatch.keyword .kwCatch).reads (hopen.mark .lParen).reads
      (ih _ _ hparam hclose.flush trivial) hclose.reads (ih' _ _ hbody hflush trivial)
  | bareHandler _ ih =>
    obtain ⟨i₁, i₂, hcatch, hparam, hbody⟩ := hprints.split₃
    obtain rfl := prints_nil.mp hparam
    exact .bareHandler (hcatch.keyword .kwCatch).reads (ih _ _ hbody hflush trivial)
  | @vars _ _ kind _ _ ih =>
    obtain ⟨i₁, i₂, hword, hdecls, hclose⟩ := hprints.split₃
    have hclose := Prints.mark .semicolon hclose
    exact .vars (varWord_of_prints hword).reads kind.ofKind?_kind
      (ih _ _ hdecls hclose.flush hclose.kind) (.mark hclose.reads) trivial
  | classDecl h _ ih => exact .classDecl h (ih _ _ hprints hflush trivial) trivial
  | functionDecl h _ ih => exact .functionDecl h (ih _ _ hprints hflush trivial) trivial
  | doWhile _ _ ih ih' => exact readsBack_doWhile ih ih' i j hprints hflush hfollow
  | whileLoop _ _ ih ih' =>
    obtain ⟨i₁, i₂, i₃, hwhile, htest, hclose, hstmt⟩ := hprints.split₄
    obtain ⟨i', hword, hcondition⟩ := ih.condition .kwWhile hwhile (by decide) htest hclose
      (hstmt.flush hflush)
    exact .whileLoop hword hcondition (ih' _ _ hstmt hflush hfollow) trivial
  | ifElse _ _ h _ ih ih' ih'' => exact readsBack_ifElse ih ih' h ih'' i j hprints hflush hfollow
  | ifThen _ _ ih ih' =>
    obtain ⟨i₁, i₂, i₃, hif, htest, hclose, hyes⟩ := hprints.split₄
    have helse : ts.kindAt j ≠ .keyword .kwElse := fun hk => by cases hfollow.2 hk
    obtain ⟨i', hword, hcondition⟩ := ih.condition .kwIf hif (by decide) htest hclose
      (hyes.flush hflush)
    exact .ifThen hword hcondition (ih' _ _ hyes hflush ⟨hfollow.1, fun hk => absurd hk helse⟩)
      helse trivial
  | forIn _ _ _ ih ih' ih'' => exact readsBack_forIn ih ih' ih'' i j hprints hflush hfollow
  | forOf _ _ h _ ih ih' ih'' => exact readsBack_forOf ih ih' h ih'' i j hprints hflush hfollow
  | @leftVars _ _ kind b _ ih =>
    change ts.Prints (put kind.text ++ stick " " ++ commas [b.pieces ++ []]) i j at hprints
    rw [ItemClass.commas_singleton, List.append_nil] at hprints
    obtain ⟨i₁, hword, hbinding⟩ := hprints.split
    exact .leftVars (varWord_of_prints hword).reads kind.ofKind?_kind
      (ih _ _ hbinding hflush trivial) trivial
  | leftPattern _ ih => exact .leftPattern (ih _ _ hprints hflush trivial)
  | forLoop _ _ _ _ ih ih' ih'' ih₃ =>
    exact readsBack_forLoop ih ih' ih'' ih₃ i j hprints hflush hfollow
  | noInit =>
    obtain rfl := prints_nil.mp hprints
    exact .noInit
  | @initVars _ kind _ _ ih =>
    obtain ⟨i₁, hword, hdecls⟩ := hprints.split
    exact .initVars (varWord_of_prints hword).reads kind.ofKind?_kind (ih _ _ hdecls hflush hfollow)
  | initExpr _ ih => exact .initExpr (ih _ _ hprints hflush (.of_kind hfollow rfl))
  | ret _ ih => exact readsBack_ret ih i j hprints hflush hfollow
  | breakTo h =>
    obtain ⟨i₁, i₂, hbreak, hlabel, hclose⟩ := hprints.split₃
    have hclose := Prints.mark .semicolon hclose
    have hbreak := hbreak.keyword .kwBreak
    cases mayName_of_prints hlabel h (by rw [hclose.kind]; simp) with
    | yes hword =>
      exact .breakTo hbreak.reads (hlabel.flush hclose.flush).breaks hword (.mark hclose.reads)
        trivial
    | no => exact .breakOut hbreak.reads (.mark hclose.reads) trivial
  | continueTo h =>
    obtain ⟨i₁, i₂, hcontinue, hlabel, hclose⟩ := hprints.split₃
    have hclose := Prints.mark .semicolon hclose
    have hcontinue := hcontinue.keyword .kwContinue
    cases mayName_of_prints hlabel h (by rw [hclose.kind]; simp) with
    | yes hword =>
      exact .continueTo hcontinue.reads (hlabel.flush hclose.flush).breaks hword
        (.mark hclose.reads) trivial
    | no => exact .continueOn hcontinue.reads (.mark hclose.reads) trivial
  | debugger =>
    obtain ⟨i₁, hdebugger, hclose⟩ := hprints.split
    exact .debugger (hdebugger.keyword .kwDebugger).reads
      (.mark (Prints.mark .semicolon hclose).reads) trivial
  | importFrom _ h ih => exact readsBack_importFrom hts ih h i j hprints hflush hfollow
  | clauseBoth h _ ih => exact readsBack_clauseBoth h ih i j hprints hflush hfollow
  | clauseList _ ih => exact .clauseList (ih _ _ hprints hflush hfollow.1)
  | importAll h =>
    change ts.Prints (commas [put "* as " ++ put _]) i j at hprints
    rw [ItemClass.commas_singleton] at hprints
    obtain ⟨i₂, has, hname⟩ := hprints.split
    obtain ⟨i₁, hstar, has⟩ := (has.compound ["*", "as"] (by decide)).split
    obtain ⟨k, hk, hname⟩ := hname.variable h
    exact .importAll (hstar.mark .star).reads (Prints.contextual "as" has (by decide)).readsWord
      (hname.kind ▸ hk) hname.text hname.reads.2
  | importNames h ih =>
    change ts.Prints (ImportSpecifier.clausePieces _) i j at hprints
    rw [clausePieces_named h.leadPieces?_eq_none hfollow] at hprints
    obtain ⟨i₁, hopen, hitems⟩ := hprints.split
    exact .importNames (hopen.mark .lBrace).reads (ih _ _ hitems hflush trivial)
  | exportDefault _ ih =>
    obtain ⟨i₂, i₃, hwords, hvalue, hend⟩ := hprints.split₃
    obtain ⟨i₁, hexport, hdefault⟩ :=
      (hwords.compound ["export", "default"] (by decide)).split
    exact .exportDefault (hexport.keyword .kwExport).reads
      (Prints.keyword .kwDefault hdefault).reads (ih _ _ (hvalue.append hend) hflush trivial)
      trivial
  | exportedFunc _ ih =>
    obtain ⟨i₁, hvalue, hend⟩ := hprints.split
    obtain rfl := prints_nil.mp hend
    rw [Expr.fit_of_le (Nat.le_of_ble_eq_true rfl)] at hvalue
    exact .exportedFunc (ih _ _ hvalue hflush trivial) trivial
  | exportedClass _ ih =>
    obtain ⟨i₁, hvalue, hend⟩ := hprints.split
    obtain rfl := prints_nil.mp hend
    rw [Expr.fit_of_le (Nat.le_of_ble_eq_true rfl)] at hvalue
    exact .exportedClass (ih _ _ hvalue hflush trivial) trivial
  | exportedValue hlead _ h ih =>
    exact readsBack_exportedValue hlead ih h i j hprints hflush hfollow
  | exportAll hsource =>
    obtain ⟨i₃, i₄, hwords, hstring, hclose⟩ := hprints.split₃
    obtain ⟨i₁, hexport, hwords⟩ :=
      (hwords.compound ["export", "*", "from"] (by decide)).split
    obtain ⟨i₂, hstar, hfrom⟩ := hwords.split
    exact .exportAll (hexport.keyword .kwExport).reads (hstar.mark .star).reads
      (Prints.contextual "from" hfrom (by decide)).readsWord (hsource.reads hts hstring)
      (.mark (Prints.mark .semicolon hclose).reads) trivial
  | exportNamed _ h ih => exact readsBack_exportNamed hts ih h i j hprints hflush hfollow
  | exportDecl _ ih =>
    obtain ⟨i₁, hexport, hdecl⟩ := hprints.split
    exact .exportDecl (Prints.keyword .kwExport (hexport.compound ["export"] (by decide))).reads
      (ih _ _ hdecl hflush ⟨hfollow.1, fun _ => rfl⟩) trivial

end
end Grammar
end ScriptBundler
