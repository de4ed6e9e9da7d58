import ScriptBundler.Proofs.Halting

/-!
# Parsers find what is spelled

Each production is put in front of tokens that spell what it is for, and is
shown to answer with that.  Where a production tries an alternative first, the
alternative is shown to fail: it follows the tokens only up to the first one
that the two readings disagree about.
-/

namespace ScriptBundler
namespace Grammar

open Grammar.Parser

variable {e x : Expr} {body : List Stmt} {k : Token.Kind} {ps : List Param} {i₁ start : Nat}
  {required calls : Bool} {m : MethodStart}

/-- Rules that find what is spelled, at positions that leave room for `d` nested
calls. -/
structure Complete (ts : Stream) (d : Nat) (r : Rules) : Prop where
  assignment : ∀ {rd : Reading} {E cx cx' e i j}, rd = ts →
    Spells rd (.expr cx e) i j → Level.assignment ≤ e.level → Ends ts cx.noIn j e →
    Fits E cx cx' → ts.tokens.size ≤ i + d →
    Runs rd E (r.assignment cx') i (Finds Expr.bare e j)
  unary : ∀ {rd : Reading} {E cx cx' e i j}, rd = ts →
    Spells rd (.expr cx e) i j → Level.unary ≤ e.level → OperandStops ts j e →
    Fits E cx cx' → ts.tokens.size ≤ i + d → Runs rd E (r.unary cx') i (Finds Expr.bare e j)
  operand : ∀ {rd : Reading} {E cx cx' e i j}, rd = ts →
    Spells rd (.expr cx e) i j → e.level = Level.closed → startsTail (ts.kindAt j) = false →
    Fits E cx cx' → ts.tokens.size ≤ i + d → Runs rd E (r.operand cx') i (Finds Expr.bare e j)
  construct : ∀ {rd : Reading} {E cx cx' e i j}, rd = ts →
    Spells rd (.expr cx e) i j → isNew e = true → Fits E cx cx' → ts.tokens.size ≤ i + d →
    Runs rd E (r.construct cx') i (Finds Expr.bare e j)
  pattern : ∀ {rd : Reading} {E cx cx' b i j}, rd = ts →
    Spells rd (.binding cx b) i j → Fits E cx cx'.allowIn → ts.tokens.size ≤ i + d →
    Runs rd E (r.pattern cx') i (Finds Binding.bare b j)
  cover : ∀ {rd : Reading} {cx cx' e i j}, rd = ts → Spells rd (.expr cx e) i j →
    Level.assignment ≤ e.level → ts.tokens.size ≤ i + d →
    Meets rd (r.pattern cx') i fun _ k => i < k ∧ Covers rd cx k j
  statement : ∀ {rd : Reading} {E cx st i j}, rd = ts → Spells rd (.stmt cx st) i j →
    ts.tokens.size ≤ i + d → Runs rd E (r.statement cx) i (Finds Stmt.bare st j)

section
variable {rd : Reading} [rd.Ended] {E : Failure → Prop} {i j d : Nat} {r : Rules}
  {cx cx' : Context}

theorem others_finds {item : Parser Expr} {others : List Expr} {first : Nat}
    (hitem : ∀ {e i₁ j₁}, Spells rd (.expr cx e) i₁ j₁ → Level.assignment ≤ e.level →
      Ends rd cx.noIn j₁ e → first ≤ i₁ → Runs rd E item i₁ (Finds Expr.bare e j₁))
    (h : Spells rd (.others cx others) i j) (hfirst : first ≤ i)
    (hcomma : rd.kindAt j ≠ .punct .comma) (hquiet : Quiet rd j)
    (hstops : ∀ e ∈ others.getLast?, Halts rd cx.noIn j e) :
    Runs rd E (collectWhile (eatMark .comma) item) i (Finds Expr.listBare others j) := by
  refine .mono (.collect_finds Expr.bare Expr.bare (fun es i' => es = [] ∧ i' = j ∨
    Spells rd (.others cx es) i' j ∧ ∀ e ∈ es.getLast?, Halts rd cx.noIn j e) (· = j)
    (.inr ⟨h, hstops⟩) ?_) fun es _ _ h => ⟨h.1, ?_⟩
  · rintro es i' hle (⟨rfl, rfl⟩ | ⟨hes, hlast⟩)
    · exact .leaves hcomma (.no (.pure ⟨rfl, rfl⟩))
    · cases hes with
      | other hread he hlevel =>
        exact .eats hread fun _ => .yes (.found
          (hitem he hlevel ⟨hquiet, hlast _ rfl⟩ (by omega)) fun a _ ha =>
            .pure ⟨by omega, _, _, rfl, ha, .inl ⟨rfl, rfl⟩⟩)
      | @moreOthers _ e es _ _ i₂ _ hread he hlevel hrest =>
        have hkind : endsYield (rd.kindAt i₂) = true := by
          cases hrest with
          | other hread | moreOthers hread =>
            rw [hread.1]
            rfl
        refine .eats hread fun _ => .yes (.found (hitem he hlevel (.of_endsYield hkind) (by omega))
          fun a _ ha => .pure ⟨by omega, _, _, rfl, ha, .inr ⟨hrest, ?_⟩⟩)
        cases hrest <;> exact fun e he => hlast e (by rwa [List.getLast?_cons_cons])
  · rw [Expr.listBare_eq_map, Expr.listBare_eq_map, h.2]

theorem commaSequence_finds {item : Parser Expr}
    (hitem : ∀ {e i₁ j₁}, Spells rd (.expr cx e) i₁ j₁ → Level.assignment ≤ e.level →
      Ends rd cx.noIn j₁ e → i ≤ i₁ → Runs rd E item i₁ (Finds Expr.bare e j₁))
    (h : Spells rd (.expr cx e) i j) (hends : SequenceEnds rd cx.noIn j e) :
    Runs rd E (commaSequence item) i (Finds Expr.bare e j) := by
  refine .here ?_
  by_cases hsequence : ∃ span items, e = .sequence span items
  · obtain ⟨span, items, rfl⟩ := hsequence
    cases h with
    | @sequence _ _ first others _ i₁ _ hfirst hlevel hothers =>
      have hcomma : rd.kindAt i₁ = .punct .comma := by
        cases hothers with
        | other hread => exact hread.1
        | moreOthers hread => exact hread.1
      refine .found (hitem hfirst hlevel (.of_endsYield (by rw [hcomma]; rfl)) (Nat.le_refl i))
        fun first' hle hbare => .sees hcomma (.yes (.found (others_finds hitem hothers hle
          hends.stops.1 hends.toQuiet ?_) fun others' _ hbare' => .spanFrom fun _ _ =>
            .pure ⟨rfl, ?_⟩))
      · cases hothers <;> exact fun e he => hends.stops.2 e (by rwa [List.getLast?_cons_cons])
      · simp only [Expr.bare, Expr.listBare, hbare, hbare']
  · have hsequence : ∀ span items, e = .sequence span items → False :=
      fun span items he => hsequence ⟨span, items, he⟩
    have hstops := hends.stops.of_not_sequence hsequence
    exact .found (hitem h (assignment_le_level hsequence) ⟨hends.toQuiet, hstops.2⟩ (Nat.le_refl i))
      fun _ _ hbare => .misses hstops.1 (.no (.pure ⟨rfl, hbare⟩))

section
variable (hr : Complete rd d r)
include hr

theorem expression_finds (h : Spells rd (.expr cx e) i j) (hends : SequenceEnds rd cx.noIn j e)
    (hfits : Fits E cx cx') (hd : rd.tokens.size ≤ i + d) :
    Runs rd E (expression r cx') i (Finds Expr.bare e j) :=
  commaSequence_finds (fun he hlevel hends hle =>
    hr.assignment rfl he hlevel hends hfits (by omega)) h hends

theorem statementsUntil_finds {stop : List Token.Kind} (h : Spells rd (.stmts cx stop body) i j)
    (hd : rd.tokens.size ≤ i + d) :
    Runs rd E (statementsUntil stop (r.statement cx)) i (Finds Stmt.listBare body j) := by
  refine .mono (.collect_finds Stmt.bare Stmt.bare (fun rest i' =>
    Spells rd (.stmts cx stop rest) i' j) (· = j) h ?_) fun body' _ _ h => ⟨h.1, ?_⟩
  · intro rest i' hle hrest
    refine .peekKind ?_
    cases hrest with
    | noStmts hstop => exact .ite (fun _ => .pure ⟨rfl, rfl⟩) fun hno => absurd hstop hno
    | moreStmts hstop hst hrest =>
      exact .ite (fun hyes => absurd hyes hstop) fun _ => .found (hr.statement rfl hst (by omega))
        fun _ _ hbare => .pure ⟨hst.lt rfl, _, _, rfl, hbare, hrest⟩
  · rw [Stmt.listBare_eq_map, Stmt.listBare_eq_map, h.2]

theorem block_finds (h : Spells rd (.block cx body) i j) (hd : rd.tokens.size ≤ i + d + 1) :
    Runs rd E (block r cx) i (Finds Stmt.listBare body j) := by
  cases h with
  | block hopen hbody hclose =>
    exact .readMark hopen fun _ => .found (statementsUntil_finds hr hbody (by omega))
      fun _ _ hbare => .readMark hclose fun _ => .pure ⟨rfl, hbare⟩

theorem template_finds {raw : String} (h : Spells rd (.template cx raw) i j) (hfits : Fits E cx cx')
    (hd : rd.tokens.size ≤ i + d + 1) : Runs rd E (template r cx') i (Finds id raw j) := by
  refine templateLiteral_finds (fun hsub hlt => ?_) h
  cases hsub with
  | substitution he hclose =>
    exact .found (expression_finds hr he (.of_reads hclose (by decide)) hfits.allowIn (by omega))
      fun _ _ _ => .tail (.readMark hclose fun _ => .pure rfl)

theorem propertyKey_finds {key : PropertyKey} (h : Spells rd (.key cx key) i j)
    (hfits : Fits E cx cx'.allowIn) (hd : rd.tokens.size ≤ i + d + 1) :
    Runs rd E (propertyKey r cx') i (Finds PropertyKey.bare key j) := by
  unfold propertyKey
  refine .peek ?_
  cases h with
  | keyName hname htext htake =>
    refine .ite (fun _ => .take htake (fun hk => ?_) fun _ => .pure ⟨rfl, ?_⟩)
      fun hno => absurd hname hno
    · rw [hk] at hname
      cases hname
    · exact congrArg PropertyKey.ident htext
  | keyString hstring =>
    have hk : (rd.nextAt i).kind = .stringQuote := hstring.1
    simp only [hk]
    exact .no (.found (stringLiteral_finds hstring) fun _ _ hraw =>
      .pure ⟨rfl, congrArg PropertyKey.string hraw⟩)
  | keyNumber hread htext =>
    have hk : (rd.nextAt i).kind = .number := hread.1
    simp only [hk]
    exact .no (.takeAt hread fun _ => .pure ⟨rfl, congrArg PropertyKey.number htext⟩)
  | keyComputed hopen he hlevel hclose =>
    have hk : (rd.nextAt i).kind = .punct .lBracket := hopen.1
    simp only [hk]
    exact .no (.takeAt hopen fun _ => .found
      (hr.assignment rfl he hlevel (.of_endsYield (by rw [hclose.1]; rfl)) hfits (by omega))
      fun _ _ hbare => .readMark hclose fun _ => .pure ⟨rfl, congrArg PropertyKey.computed hbare⟩)

theorem defaultValue_finds {v : Option Expr} (h : Spells rd (.value cx v) i j)
    (hquiet : Quiet rd j) (hfits : Fits E cx cx'.allowIn) (hd : rd.tokens.size ≤ i + d + 1) :
    Runs rd E (defaultValue r cx') i (Finds Expr.optionBare v j) := by
  cases h with
  | noValue hno => exact .leaves hno (.no (.pure ⟨rfl, rfl⟩))
  | value hread he hlevel hstops =>
    exact .eats hread fun _ => .yes (.found
      (hr.assignment rfl he hlevel ⟨hquiet, hstops⟩ hfits (by omega))
      fun _ _ hbare => .pure ⟨rfl, congrArg some hbare⟩)

end

theorem startsBinding_ne_spread (h : startsBinding k = true) : k ≠ .punct .spread := by
  rintro rfl
  cases h

theorem startsKey_ne_spread (h : startsKey k = true) : k ≠ .punct .spread := by
  rintro rfl
  cases h

section
variable (hr : Complete rd d r)
include hr

theorem arrayElement_finds {x : ArrayElement} (h : Spells rd (.item cx .arrayElement x) i j)
    (hnext : endsYield (rd.kindAt j) = true) (hfits : Fits E cx cx'.allowIn)
    (hd : rd.tokens.size ≤ i + d) :
    Runs rd E (arrayElement r cx') i (Finds ArrayElement.bare x j) := by
  cases h with
  | arrayRest hread hb =>
    exact .eats hread fun _ => .yes (.found (hr.pattern rfl hb hfits (by omega)) fun _ _ hbare =>
      .pure ⟨rfl, congrArg ArrayElement.rest hbare⟩)
  | arrayItem hb hv =>
    refine .leaves (startsBinding_ne_spread hb.opens) (.no (.found (hr.pattern rfl hb hfits hd)
      fun b' _ hbare => .found (defaultValue_finds hr hv (.of_endsYield hnext) hfits (by omega))
        fun v' _ hbare' => .pure ⟨rfl, ?_⟩))
    simp only [ArrayElement.bare, hbare, hbare']

theorem objectElement_finds {x : ObjectElement} (h : Spells rd (.item cx .objectElement x) i j)
    (hnext : endsYield (rd.kindAt j) = true) (hfits : Fits E cx cx'.allowIn)
    (hd : rd.tokens.size ≤ i + d) :
    Runs rd E (objectElement r cx') i (Finds ObjectElement.bare x j) := by
  cases h with
  | objectRest hread hword =>
    exact .eats hread fun _ => .yes (.here (.readName hword fun _ => .spanFrom fun _ _ =>
      .pure ⟨rfl, rfl⟩))
  | objectPair hkey hcolon hb hv =>
    refine .leaves (startsKey_ne_spread hkey.opens) (.no (.isAt (fun _ => ?_) fun _ => ?_))
    all_goals
      refine .here (.found (propertyKey_finds hr hkey hfits (by omega)) fun key' _ hbare =>
        .eats hcolon fun _ => .yes (.found (hr.pattern rfl hb hfits (by omega)) fun b' _ hbare' =>
          .found (defaultValue_finds hr hv (.of_endsYield hnext) hfits (by omega))
            fun v' _ hbare'' => .pure ⟨rfl, ?_⟩))
      simp only [ObjectElement.bare, hbare, hbare', hbare'']
  | @objectShort _ _ name _ _ _ _ hword hcolon hv =>
    have hname : (rd.kindAt i).isName = true := by
      rw [hword.1.1]
      rfl
    have hkey : Spells rd (.key cx (.ident name)) i _ := .keyName hname hword.2 hword.1.2
    refine .leaves (startsKey_ne_spread hkey.opens) (.no (.sees hword.1.1 (.here
      (.found (propertyKey_finds hr hkey hfits (by omega)) fun key' _ hbare =>
        .leaves hcolon (.no ?_)))))
    cases key' with
    | ident name' =>
      obtain rfl : name' = name := PropertyKey.ident.inj hbare
      refine .yes (.spanned fun _ => .found
        (defaultValue_finds hr hv (.of_endsYield hnext) hfits (by omega)) fun v' _ hbare' =>
          .pure ⟨rfl, ?_⟩)
      simp only [ObjectElement.bare, hbare']
    | string | number | computed => cases hbare

theorem pattern_finds {b : Binding} (h : Spells rd (.binding cx b) i j)
    (hfits : Fits E cx cx'.allowIn) (hd : rd.tokens.size ≤ i + d + 1) :
    Runs rd E (pattern r cx') i (Finds Binding.bare b j) := by
  unfold pattern
  refine .here (.peekKind ?_)
  cases h with
  | bound hname htext htake =>
    have hk : rd.kindAt i = .identifier ∨ rd.kindAt i = .keyword .kwAsync := by
      unfold namesVariable at hname
      rwa [Bool.or_eq_true, decide_eq_true_eq, decide_eq_true_eq] at hname
    rcases hk with hk | hk
    all_goals
      simp only [hk]
      exact .readVariable hname htake fun _ => .spanFrom fun _ _ =>
        .pure ⟨rfl, congrArg (Binding.ident .nowhere) htext⟩
  | boundArray hopen helements =>
    simp only [hopen.1]
    exact .readMark hopen fun _ => .found (.list_finds helements ArrayElement.listBare_eq_map
      fun hx hnext _ => arrayElement_finds hr hx hnext hfits (by omega)) fun _ _ hbare =>
        .spanFrom fun _ _ => .pure ⟨rfl, congrArg (Binding.array .nowhere) hbare⟩
  | boundObject hopen hproperties =>
    simp only [hopen.1]
    exact .readMark hopen fun _ => .found (.list_finds hproperties ObjectElement.listBare_eq_map
      fun hx hnext _ => objectElement_finds hr hx hnext hfits (by omega)) fun _ _ hbare =>
        .spanFrom fun _ _ => .pure ⟨rfl, congrArg (Binding.object .nowhere) hbare⟩

theorem param_finds {x : Param} (h : Spells rd (.item cx .param x) i j)
    (hnext : endsYield (rd.kindAt j) = true) (hfits : Fits E cx cx'.allowIn)
    (hd : rd.tokens.size ≤ i + d) : Runs rd E (param r cx') i (Finds Param.bare x j) := by
  refine .here ?_
  cases h with
  | restParam hread hb =>
    exact .eats hread fun _ => .yes (.found (hr.pattern rfl hb hfits (by omega)) fun _ _ hbare =>
      .spanFrom fun _ _ => .pure ⟨rfl, congrArg (Param.rest .nowhere) hbare⟩)
  | plainParam hb hv =>
    refine .leaves (startsBinding_ne_spread hb.opens) (.no (.found (hr.pattern rfl hb hfits hd)
      fun b' _ hbare => .found (defaultValue_finds hr hv (.of_endsYield hnext) hfits (by omega))
        fun v' _ hbare' => .spanFrom fun _ _ => .pure ⟨rfl, ?_⟩))
    simp only [Param.bare, hbare, hbare']

theorem params_finds (hopen : rd.Reads (.punct .lParen) i i₁)
    (h : Spells rd (.items cx .param ps) i₁ j) (hfits : Fits E cx cx'.allowIn)
    (hd : rd.tokens.size ≤ i + d + 1) : Runs rd E (params r cx') i (Finds Param.listBare ps j) :=
  .readMark hopen fun _ => .list_finds h Param.listBare_eq_map fun hx hnext _ =>
    param_finds hr hx hnext hfits (by omega)

omit hr in
theorem declaredName_finds {name : Option String} (h : rd.MayName name i j)
    (hrequired : required = true → name.isSome = true) :
    Runs rd E (declaredName required) i (Finds id name j) := by
  cases h with
  | yes hword => exact .sees hword.1.1 (.yes (.readName hword fun _ => .pure ⟨rfl, rfl⟩))
  | no hno =>
    exact .misses hno (.no (.ite (fun h => nomatch hrequired h) fun _ => .pure ⟨rfl, rfl⟩))

theorem callable_finds {isAsync isGenerator : Bool} {α : Type}
    {f : List Param → List Stmt → Parser α} {Q : α → Nat → Prop}
    (h : Spells rd (.callable (Context.function isAsync isGenerator) ps body) i j)
    (hd : rd.tokens.size ≤ i + d + 1)
    (hf : ∀ ps' body', Param.listBare ps' = Param.listBare ps →
      Stmt.listBare body' = Stmt.listBare body → Runs rd E (f ps' body') j Q) :
    Runs rd E (do
      let ps ← params r (Context.function isAsync isGenerator)
      let body ← block r (Context.function isAsync isGenerator)
      f ps body) i Q := by
  cases h with
  | callable hopen hps hbody =>
    exact .found (params_finds hr hopen hps .refl hd) fun ps' _ hbare =>
      .found (block_finds hr hbody (by omega)) fun body' _ hbare' => hf ps' body' hbare hbare'

theorem function_finds {f : Func} {isAsync required : Bool} (h : Spells rd (.funcRest f) i j)
    (hasync : f.isAsync = isAsync) (hrequired : required = true → f.name.isSome = true)
    (hd : rd.tokens.size ≤ i + d + 1) :
    Runs rd E (function r isAsync required) i (Finds Func.bare f j) := by
  cases h with
  | funcRest hword hstar hname hcall =>
    cases hasync
    refine .here (.readKeyword hword fun _ => .mayEat hstar fun _ =>
      .found (declaredName_finds hname hrequired) fun name' _ hname' =>
        callable_finds hr hcall (by omega) fun ps' body' hps hbody => .spanFrom fun _ _ =>
          .pure ⟨rfl, ?_⟩)
    obtain rfl : name' = _ := hname'
    simp only [Func.bare, hps, hbody]

theorem asyncFunction_finds {f : Func} (h : Spells rd (.func f) i j) (hasync : f.isAsync = true)
    (hrequired : required = true → f.name.isSome = true) (hd : rd.tokens.size ≤ i + d + 1) :
    Runs rd E (asyncFunction r required) i (Finds Func.bare f j) := by
  cases h with
  | func hno => cases hasync.symm.trans hno
  | asyncFunc _ hword hf =>
    exact .here (.takeAt hword fun _ => .found (function_finds hr hf hasync hrequired (by omega))
      fun ⟨_, _, _, _, _, _⟩ _ hbare => .spanFrom fun _ _ => .pure ⟨rfl, hbare⟩)

omit hr in
theorem methodStart_finds (h : rd.MethodStartAt m i j) :
    Runs rd E methodStart i (Finds id m j) := by
  unfold methodStart
  have hstar : ∀ {isAsync isGenerator i₁}, rd.MayRead (.punct .star) isGenerator i₁ j →
      Runs rd E (do
        return (⟨.method, isAsync, ← eatMark .star⟩ : MethodStart)) i₁
        (Finds id ⟨.method, isAsync, isGenerator⟩ j) := fun hstar =>
    .mayEat hstar fun _ => .pure ⟨rfl, rfl⟩
  refine .peekSecondKind ?_
  cases h with
  | named hnamed hgen => exact .ite (fun _ => hstar hgen) fun hno => absurd hnamed hno
  | get hnot hword =>
    exact .ite (fun h => absurd h (Bool.eq_false_iff.mp hnot)) fun _ =>
      .eatsWord hword fun _ => .yes (.pure ⟨rfl, rfl⟩)
  | set hnot hword =>
    refine .ite (fun h => absurd h (Bool.eq_false_iff.mp hnot)) fun _ =>
      .leavesWord (fun h => ?_) (.no (.eatsWord hword fun _ => .yes (.pure ⟨rfl, rfl⟩)))
    exact absurd (h.2.symm.trans hword.2) (by decide)
  | async hnot hword hgen =>
    have hno : ∀ word, ¬ (rd.kindAt i = .identifier ∧ rd.textAt i = word) :=
      fun _ h => absurd (h.1.symm.trans hword.1) nofun
    exact .ite (fun h => absurd h (Bool.eq_false_iff.mp hnot)) fun _ =>
      .leavesWord (hno _) (.no (.leavesWord (hno _) (.no (.eats hword fun _ => .yes (hstar hgen)))))
  | plain hword hasync hgen =>
    exact .ite (fun _ => hstar hgen) fun _ => .leavesWord (fun h => hword ⟨h.1, .inl h.2⟩)
      (.no (.leavesWord (fun h => hword ⟨h.1, .inr h.2⟩)
        (.no (.leaves hasync (.no (hstar hgen))))))

theorem methodBody_finds (span : Span)
    (h : Spells rd (.callable (Context.function m.isAsync m.isGenerator) ps body) i j)
    (hd : rd.tokens.size ≤ i + d + 1) :
    Runs rd E (methodBody r start m) i
      (Finds Func.bare ⟨span, none, m.isAsync, m.isGenerator, ps, body⟩ j) := by
  refine callable_finds hr h hd fun ps' body' hps hbody => .spanned fun _ => .pure ⟨rfl, ?_⟩
  simp only [Func.bare, hps, hbody]

theorem classMember_finds {m : ClassMember} (h : Spells rd (.member cx m) i j)
    (hfits : Fits E cx cx'.allowIn) (hd : rd.tokens.size ≤ i + d + 1) :
    Runs rd E (classMember r cx') i (Finds ClassMember.bare m j) := by
  unfold classMember
  refine .here ?_
  have hrest : ∃ isStatic i₁, rd.StaticAt isStatic i i₁ ∧ Runs rd E (do
        let m ← methodStart
        let key ← propertyKey r cx'
        if ← atMark .lParen then
          let value ← methodBody r (rd.nextAt i).span.start m
          return ClassMember.method (← spanFrom (rd.nextAt i).span.start) m.kind isStatic key value
        else if m.isPlain then
          let value ← defaultValue r cx'
          semicolon
          return ClassMember.field (← spanFrom (rd.nextAt i).span.start) isStatic key value
        else
          unexpected) i₁ (Finds ClassMember.bare m j) := by
    cases h with
    | method hst hm hkey hcall =>
      have hle := hst.le
      refine ⟨_, _, hst, .found (methodStart_finds hm) fun m' _ hm' => ?_⟩
      obtain rfl : m' = _ := hm'
      refine .found (propertyKey_finds hr hkey hfits (by omega)) fun key' _ hbare =>
        .sees (of_decide_eq_true hcall.opens) (.yes (.found
          (methodBody_finds hr .nowhere hcall (by omega)) fun f' _ hbare' => .spanFrom fun _ _ =>
            .pure ⟨rfl, ?_⟩))
      simp only [ClassMember.bare, hbare, hbare']
      rfl
    | field hst hm hkey hparen hv hclose =>
      have hle := hst.le
      refine ⟨_, _, hst, .found (methodStart_finds hm) fun m' _ hm' => ?_⟩
      obtain rfl : m' = _ := hm'
      refine .found (propertyKey_finds hr hkey hfits (by omega)) fun key' _ hbare =>
        .misses hparen (.no (.ite (fun _ => .found
          (defaultValue_finds hr hv (.of_closes hclose) hfits (by omega)) fun v' _ hbare' =>
            .close hclose fun _ => .spanFrom fun _ _ => .pure ⟨rfl, ?_⟩) fun hno => absurd rfl hno))
      simp only [ClassMember.bare, hbare, hbare']
  obtain ⟨isStatic, i₁, hstatic, hrest⟩ := hrest
  cases hstatic with
  | yes hread hfollows =>
    have hsecond : followsStaticName (rd.kindAt (rd.past i)) = false := hread.2.1 ▸ hfollows
    refine .sees hread.1 (.peekSecondKind ?_)
    rw [hsecond]
    exact .yes (.takeAt hread fun _ => hrest)
  | no hno =>
    by_cases hk : rd.kindAt i = .keyword .kwStatic
    · refine .sees hk (.peekSecondKind ?_)
      rw [hno hk]
      exact .no hrest
    · exact .misses hk (.peekSecondKind (.no hrest))

theorem classParts_finds {name : Option String} {parent : Option Expr}
    {members : List ClassMember} (h : Spells rd (.classRest cx name parent members) i j)
    (hrequired : required = true → name.isSome = true) (hfits : Fits E cx cx')
    (hd : rd.tokens.size ≤ i + d + 1) :
    Runs rd E (classParts r cx' required) i fun parts k => k = j ∧ parts.name = name ∧
      Expr.optionBare parts.parent = Expr.optionBare parent ∧
        ClassMember.listBare parts.members = ClassMember.listBare members := by
  unfold classParts
  cases h with
  | @classRest _ _ _ _ _ i₁ i₂ i₃ i₄ _ hword hname hparent hopen hmembers =>
    refine .readKeyword hword fun _ => .found (declaredName_finds hname hrequired)
      fun name' _ hname' => ?_
    obtain rfl : name' = name := hname'
    have hrest : ∀ parent', i₂ ≤ i₃ → Expr.optionBare parent' = Expr.optionBare parent →
        Runs rd E (do
          expectMark .lBrace
          let members ← collect do
            if ← eatMark .rBrace then return none
            else if ← eatMark .semicolon then return some none
            else return some (some (← classMember r cx'))
          return (⟨name', parent', members.filterMap id⟩ : ClassParts)) i₃ fun parts k =>
            k = j ∧ parts.name = name' ∧ Expr.optionBare parts.parent = Expr.optionBare parent ∧
              ClassMember.listBare parts.members = ClassMember.listBare members := by
      intro parent' hle hbare
      refine .readMark hopen fun _ => .bind (.collect (fun done k => ∃ rest,
        Spells rd (.members cx.allowIn rest) k j ∧
          (done.reverse.filterMap id ++ rest).map ClassMember.bare =
            members.map ClassMember.bare) ⟨members, hmembers, rfl⟩ ?_)
      rintro done k hle' ⟨rest, hms, hdone⟩
      cases hms with
      | noMembers hclose =>
        refine .eats hclose fun _ => .yes (.pure (.pure ⟨rfl, rfl, hbare, ?_⟩))
        rw [List.append_nil] at hdone
        rw [ClassMember.listBare_eq_map, ClassMember.listBare_eq_map, hdone]
      | skipMember hsemi hms =>
        exact .leaves (by rw [hsemi.1]; exact nofun) (.no (.eats hsemi fun hlt =>
          .yes (.pure ⟨hlt, rest, hms, by simpa using hdone⟩)))
      | moreMembers hm hms =>
        have hk : ∀ mark, mark = .rBrace ∨ mark = .semicolon → rd.kindAt k ≠ .punct mark := by
          intro mark hmark hk
          have hopens := hm.opens
          rw [hk] at hopens
          rcases hmark with rfl | rfl <;> cases hopens
        refine .leaves (hk _ (.inl rfl)) (.no (.leaves (hk _ (.inr rfl)) (.no (.found
          (classMember_finds hr hm hfits.allowIn (by omega)) fun m' _ hbare' =>
            .pure ⟨hm.lt rfl, _, hms, ?_⟩))))
        rw [← hdone]
        simp [hbare']
    cases hparent with
    | noParent hno => exact .leaves hno (.no (.bind (.pure (hrest none (Nat.le_refl _) rfl))))
    | parent hread he hlevel =>
      refine .eats hread fun _ => .yes (.bind (.map ?_))
      refine (hr.operand rfl he hlevel (by rw [hopen.1]; rfl) hfits (by omega)).mono ?_
      rintro e' _ _ ⟨rfl, hbare⟩
      exact hrest (some e') (by omega) (congrArg some hbare)

omit hr in
theorem startsExpr_ne_spread (h : startsExpr k = true) : k ≠ .punct .spread := by
  rintro rfl
  cases h

theorem spreadOrAssignment_finds (h : Spells rd (.item cx .arg e) i j)
    (hnext : endsYield (rd.kindAt j) = true) (hfits : Fits E cx cx') (hd : rd.tokens.size ≤ i + d) :
    Runs rd E (spreadOrAssignment r cx') i (Finds Expr.bare e j) := by
  refine .here ?_
  cases h with
  | spreadArg hread he hlevel =>
    exact .eats hread fun _ => .yes (.found
      (hr.assignment rfl he hlevel (.of_endsYield hnext) hfits (by omega)) fun _ _ hbare =>
        .spanFrom fun _ _ => .pure ⟨rfl, congrArg (Expr.spread .nowhere) hbare⟩)
  | plainArg he hlevel =>
    exact .leaves (startsExpr_ne_spread he.opens)
      (.no (hr.assignment rfl he hlevel (.of_endsYield hnext) hfits hd))

theorem arguments_finds {args : List Expr} (hopen : rd.Reads (.punct .lParen) i i₁)
    (h : Spells rd (.items cx.allowIn .arg args) i₁ j) (hfits : Fits E cx cx')
    (hd : rd.tokens.size ≤ i + d + 1) :
    Runs rd E (arguments r cx') i (Finds Expr.listBare args j) :=
  .readMark hopen fun _ => .list_finds h Expr.listBare_eq_map fun hx hnext _ =>
    spreadOrAssignment_finds hr hx hnext hfits.allowIn (by omega)

theorem arrayLiteral_finds {elements : List (Option Expr)}
    (hopen : rd.Reads (.punct .lBracket) i i₁)
    (h : Spells rd (.items cx.allowIn .element elements) i₁ j) (hfits : Fits E cx cx')
    (hd : rd.tokens.size ≤ i + d + 1) :
    Runs rd E (arrayLiteral r cx') i (Finds Expr.elementsBare elements j) := by
  refine .readMark hopen fun _ => .list_finds h Expr.elementsBare_eq_map fun hx hnext _ => .map ?_
  cases hx with
  | element he =>
    exact (spreadOrAssignment_finds hr he hnext hfits.allowIn (by omega)).mono
      fun _ _ _ h => ⟨h.1, congrArg some h.2⟩

omit hr [rd.Ended] in
theorem methodKey_ne_spread {key : PropertyKey} {i₁ i₂ : Nat} (hm : rd.MethodStartAt m i i₁)
    (hkey : Spells rd (.key cx key) i₁ i₂) : rd.kindAt i ≠ .punct .spread := by
  rcases hm.opens with rfl | hk | hk
  · exact startsKey_ne_spread hkey.opens
  · exact startsKey_ne_spread hk
  · rw [hk]
    exact nofun

theorem property_finds {p : Property} (h : Spells rd (.item cx .property p) i j)
    (hnext : endsYield (rd.kindAt j) = true) (hfits : Fits E cx cx'.allowIn)
    (hd : rd.tokens.size ≤ i + d) :
    Runs rd E (property r cx'.allowIn) i (Finds Property.bare p j) := by
  refine .here ?_
  cases h with
  | spreadProperty hread he hlevel =>
    exact .eats hread fun _ => .yes (.found
      (hr.assignment rfl he hlevel (.of_endsYield hnext) hfits (by omega)) fun _ _ hbare =>
        .pure ⟨rfl, congrArg Property.spread hbare⟩)
  | methodProperty hm hkey hcall =>
    refine .leaves (methodKey_ne_spread hm hkey) (.no (.isAt (fun _ => ?_) fun _ => ?_))
    all_goals
      refine .found (methodStart_finds hm) fun m' _ hm' => ?_
      obtain rfl : m' = _ := hm'
      refine .found (propertyKey_finds hr hkey hfits (by omega)) fun key' _ hbare =>
        .sees (of_decide_eq_true hcall.opens) ?_
      rw [if_pos (Bool.or_true _)]
      refine .found (methodBody_finds hr .nowhere hcall (by omega)) fun f' _ hbare' =>
        .pure ⟨rfl, ?_⟩
      simp only [Property.bare, hbare, hbare']
      rfl
  | pair hm hkey hcolon he hlevel =>
    refine .leaves (methodKey_ne_spread hm hkey) (.no (.isAt (fun _ => ?_) fun _ => ?_))
    all_goals
      refine .found (methodStart_finds hm) fun m' _ hm' => ?_
      obtain rfl : m' = _ := hm'
      refine .found (propertyKey_finds hr hkey hfits (by omega)) fun key' _ hbare =>
        .misses (by rw [hcolon.1]; exact nofun) (.no (.eats hcolon fun _ => .yes (.found
          (hr.assignment rfl he hlevel (.of_endsYield hnext) hfits (by omega)) fun e' _ hbare' =>
            .pure ⟨rfl, ?_⟩)))
      simp only [Property.bare, hbare, hbare']
  | @shorthand _ name _ _ hm hword hparen hcolon =>
    have hname : (rd.kindAt i).isName = true := by
      rw [hword.1.1]
      rfl
    have hkey : Spells rd (.key cx (.ident name)) i j := .keyName hname hword.2 hword.1.2
    refine .leaves (methodKey_ne_spread hm hkey) (.no (.sees hword.1.1 (.found
      (methodStart_finds hm) fun m' _ hm' => ?_)))
    obtain rfl : m' = _ := hm'
    refine .found (propertyKey_finds hr hkey hfits (by omega)) fun key' _ hbare =>
      .misses hparen (.no (.leaves hcolon (.no ?_)))
    cases key' with
    | ident name' =>
      obtain rfl : name' = name := PropertyKey.ident.inj hbare
      exact .yes (.pure ⟨rfl, rfl⟩)
    | string | number | computed => cases hbare

theorem primary_finds (h : Spells rd (.expr cx x) i j) (hprimary : isPrimary x = true)
    (hfits : Fits E cx cx') (hd : rd.tokens.size ≤ i + d + 1) :
    Runs rd E (primary r cx') i (Finds Expr.bare x j) := by
  unfold primary
  refine .peek ?_
  have htoken : ∀ {k : Token.Kind} [Readable k] {f : Span → Expr}, rd.Reads k i j →
      (∀ span, (f span).bare = x.bare) → Runs rd E (do
        let _ ← advance
        return f (← spanFrom (rd.nextAt i).span.start)) i (Finds Expr.bare x j) :=
    fun hread hbare => .takeAt hread fun _ => .spanFrom fun span _ => .pure ⟨rfl, hbare span⟩
  cases h with
  | null hread | trueWord hread | falseWord hread | this hread | super hread =>
    have hk : (rd.nextAt i).kind = _ := hread.1
    simp only [hk]
    exact htoken hread fun _ => rfl
  | number hread htext hword hnumber =>
    have hk : (rd.nextAt i).kind = _ := hread.1
    simp only [hk]
    exact .takeAt hread fun _ => .rawPeek (.ite (fun h => absurd h (not_or.mpr ⟨hword, hnumber⟩))
      fun _ => .spanFrom fun _ _ => .pure ⟨rfl, congrArg (Expr.number .nowhere) htext⟩)
  | string hstring =>
    have hk : (rd.nextAt i).kind = _ := hstring.1
    simp only [hk]
    exact .found (stringLiteral_finds hstring) fun _ _ hraw => .spanFrom fun _ _ =>
      .pure ⟨rfl, congrArg (Expr.string .nowhere) hraw⟩
  | regex hregex =>
    rcases hregex.kindAt_eq with hk | hk
    all_goals
      have hk : (rd.nextAt i).kind = _ := hk
      simp only [hk]
      refine .found (regexLiteral_finds hregex) ?_
      rintro _ _ rfl
      exact .spanFrom fun _ _ => .pure ⟨rfl, rfl⟩
  | quasi htemplate =>
    have hk : (rd.nextAt i).kind = _ := of_decide_eq_true htemplate.opens
    simp only [hk]
    exact .found (template_finds hr htemplate hfits hd) fun _ _ hraw => .spanFrom fun _ _ =>
      .pure ⟨rfl, congrArg (Expr.template .nowhere) hraw⟩
  | ident hword =>
    have hk : (rd.nextAt i).kind = _ := hword.1.1
    simp only [hk]
    exact htoken hword.1 fun _ => congrArg (Expr.ident .nowhere) hword.2
  | asyncIdent hread htext hnot =>
    have hk : (rd.nextAt i).kind = _ := hread.1
    have hsecond : rd.kindAt (rd.past i) ≠ .keyword .kwFunction := hread.2.1 ▸ hnot
    simp only [hk]
    exact .peekSecondKind (.ite (fun h => absurd h hsecond) fun _ =>
      htoken hread fun _ => congrArg (Expr.ident .nowhere) htext)
  | array hopen helements =>
    have hk : (rd.nextAt i).kind = _ := hopen.1
    simp only [hk]
    exact .found (arrayLiteral_finds hr hopen helements hfits hd) fun _ _ hbare =>
      .spanFrom fun _ _ => .pure ⟨rfl, congrArg (Expr.array .nowhere) hbare⟩
  | object hopen hproperties =>
    have hk : (rd.nextAt i).kind = _ := hopen.1
    simp only [hk]
    exact .found (.readMark hopen fun _ => .list_finds hproperties Property.listBare_eq_map
      fun hx hnext _ => property_finds hr hx hnext hfits.allowIn (by omega)) fun _ _ hbare =>
      .spanFrom fun _ _ => .pure ⟨rfl, congrArg (Expr.object .nowhere) hbare⟩
  | function hf =>
    cases hf with
    | func hasync hrest =>
      have hk : (rd.nextAt i).kind = _ := of_decide_eq_true hrest.opens
      simp only [hk]
      exact .found (function_finds hr hrest hasync (by simp) hd)
        fun _ _ hbare => .spanFrom fun _ _ => .pure ⟨rfl, congrArg (Expr.function .nowhere) hbare⟩
    | asyncFunc hasync hword hrest hsp =>
      have hk : (rd.nextAt i).kind = _ := hword.1
      have hsecond : rd.kindAt (rd.past i) = .keyword .kwFunction :=
        hword.2.1 ▸ of_decide_eq_true hrest.opens
      simp only [hk]
      exact .peekSecondKind (.ite (fun _ => .found (asyncFunction_finds hr
        (.asyncFunc hasync hword hrest hsp) hasync (by simp) hd)
        fun _ _ hbare => .spanFrom fun _ _ => .pure ⟨rfl, congrArg (Expr.function .nowhere) hbare⟩)
        fun h => absurd hsecond h)
  | «class» hclass =>
    have hk : (rd.nextAt i).kind = _ := of_decide_eq_true hclass.opens
    simp only [hk]
    refine .found (classParts_finds hr hclass (by simp) hfits hd) ?_
    rintro parts _ ⟨hname, hparent, hmembers⟩
    refine .spanFrom fun _ _ => .pure ⟨rfl, ?_⟩
    simp only [Expr.bare, hname, hparent, hmembers]
  | paren hopen hinner hclose =>
    have hk : (rd.nextAt i).kind = _ := hopen.1
    simp only [hk]
    exact .takeAt hopen fun _ => .found
      (expression_finds hr hinner (.of_reads hclose (by decide)) hfits.allowIn (by omega))
      fun _ _ hbare => .readMark hclose fun _ => .spanFrom fun _ _ =>
        .pure ⟨rfl, congrArg (Expr.paren .nowhere) hbare⟩
  | binary =>
    rw [isPrimary_binary] at hprimary
    cases hprimary
  | _ => cases hprimary

omit hr [rd.Ended] in
theorem tailsLoop_ends {start n : Nat} (hn : rd.tokens.size ≤ i + n)
    (hend : startsTail (rd.kindAt i) = false ∨ calls = false ∧ rd.kindAt i = .punct .lParen) :
    Runs rd E (tailsLoop r cx' calls start e n) i fun e' k => e' = e ∧ k = i := by
  cases n with
  | zero => exact .beyond hn
  | succ n =>
    unfold tailsLoop tail?
    refine .bind (.peekKind ?_)
    rcases hend with hend | ⟨rfl, hk⟩
    · split
      all_goals first
        | exact .pure (.pure ⟨rfl, rfl⟩)
        | (rename_i hk; rw [hk] at hend; cases hend)
    · simp only [hk]
      exact .no (.pure (.pure ⟨rfl, rfl⟩))

omit hr [rd.Ended] in
theorem tailsLoop_round {n : Nat} {Q : Expr → Nat → Prop} (hn : rd.tokens.size ≤ i + n)
    (h : ∀ n, rd.tokens.size ≤ i + n + 1 → Runs rd E (tailsLoop r cx' calls start e (n + 1)) i Q) :
    Runs rd E (tailsLoop r cx' calls start e n) i Q := by
  cases n with
  | zero => exact .beyond hn
  | succ n => exact h n hn

theorem tailsLoop_finds {m : Nat} {Q : Expr → Nat → Prop} (hext : Extends rd cx x m e j)
    (hclosed : e.level = Level.closed)
    (hcalls : calls = false → constructs e = true ∨ isNewBare e = true) (hfits : Fits E cx cx')
    (hd : rd.tokens.size ≤ m + d + 1)
    (hend : ∀ {e' n}, e'.bare = e.bare → rd.tokens.size ≤ j + n →
      Runs rd E (tailsLoop r cx' calls start e' n) j Q) {x' : Expr} {n : Nat}
    (hx : x'.bare = x.bare) (hn : rd.tokens.size ≤ m + n) :
    Runs rd E (tailsLoop r cx' calls start x' n) m Q := by
  induction hext generalizing Q with
  | refl => exact hend hx hn
  | dot hext hobject hread hname htext htake ih =>
    have hle := hext.le
    refine ih hobject.1 (fun h => .inl ((hcalls h).resolve_right Bool.false_ne_true)) fun hbare hn =>
      tailsLoop_round hn fun n hn => ?_
    unfold tailsLoop tail?
    refine .bind (.peekKind ?_)
    simp only [hread.1]
    refine .takeAt hread fun _ => .here (.readAny hname htake fun _ => .spanFrom fun _ _ =>
      .spanned fun _ => .pure (hend ?_ (by omega)))
    simp only [Expr.bare, hbare, htext]
  | index hext hobject hopen hproperty hclose ih =>
    have hle := hext.le
    refine ih hobject.1 (fun h => .inl ((hcalls h).resolve_right Bool.false_ne_true)) fun hbare hn =>
      tailsLoop_round hn fun n hn => ?_
    unfold tailsLoop tail?
    refine .bind (.peekKind ?_)
    simp only [hopen.1]
    refine .takeAt hopen fun _ => .found
      (expression_finds hr hproperty (.of_reads hclose (by decide)) hfits.allowIn (by omega))
      fun _ _ hbare' => .readMark hclose fun _ => .spanned fun _ => .pure (hend ?_ (by omega))
    simp only [Expr.bare, hbare, hbare']
  | call hext hobject hopen hargs ih =>
    have hle := hext.le
    have hlt := hopen.lt
    cases calls with
    | false => rcases hcalls rfl with h | h <;> cases h
    | true =>
      refine ih hobject.1 (by simp) fun hbare hn => tailsLoop_round hn fun n hn => ?_
      unfold tailsLoop tail?
      refine .bind (.peekKind ?_)
      simp only [hopen.1]
      have hle' := hargs.le
      refine .found (arguments_finds hr hopen hargs hfits (by omega)) fun _ _ hbare' =>
        .spanned fun _ => .pure (hend ?_ (by omega))
      simp only [Expr.bare, hbare, hbare']
  | tagged hext hobject htemplate ih =>
    have hle := hext.le
    have hlt := htemplate.lt rfl
    refine ih hobject.1 (fun h => .inl ((hcalls h).resolve_right Bool.false_ne_true)) fun hbare hn =>
      tailsLoop_round hn fun n hn => ?_
    unfold tailsLoop tail?
    refine .bind (.peekKind ?_)
    simp only [show rd.kindAt _ = .templateQuote from of_decide_eq_true htemplate.opens]
    refine .found (template_finds hr htemplate hfits (by omega)) fun raw _ hraw =>
      .spanned fun _ => .pure (hend ?_ (by omega))
    obtain rfl : raw = _ := hraw
    simp only [Expr.bare, hbare]
  | trailing | conditional | assign => cases hclosed
  | @binary _ _ op =>
    have hbounds := BinaryOp.level_bounds op
    have hlevel : op.level = 255 := hclosed
    omega

theorem tails_finds {m : Nat} (hext : Extends rd cx x m e j) (hclosed : e.level = Level.closed)
    (hcalls : calls = false → constructs e = true ∨ isNewBare e = true)
    (hend : startsTail (rd.kindAt j) = false ∨ calls = false ∧ rd.kindAt j = .punct .lParen)
    (hfits : Fits E cx cx') {x' : Expr} (hx : x'.bare = x.bare) (hd : rd.tokens.size ≤ m + d + 1) :
    Runs rd E (tails r cx' calls x') m (Finds Expr.bare e j) := by
  refine tailsLoop_finds hr hext hclosed hcalls hfits hd (fun hbare hn =>
    (tailsLoop_ends hn hend).mono ?_) hx (by omega)
  rintro _ _ _ ⟨rfl, rfl⟩
  exact ⟨rfl, hbare⟩

omit hr in
theorem closed_of_constructs (h : constructs e = true ∨ isNewBare e = true) :
    e.level = Level.closed := by
  rcases h with h | h
  · cases e with
    | dot | index | tagged | newBare | call => rfl
    | _ => exact of_decide_eq_true h
  · cases e with
    | newBare => rfl
    | _ => cases h

theorem callee_finds {callee : Expr} (h : Spells rd (.expr cx callee) i j)
    (hconstructs : constructs callee = true ∨ isNewBare callee = true)
    (hend : startsTail (rd.kindAt j) = false ∨ rd.kindAt j = .punct .lParen)
    (hfits : Fits E cx cx') (hd : rd.tokens.size ≤ i + d) {α : Type} {f : Expr → Parser α}
    {Q : α → Nat → Prop} (hf : ∀ e', i ≤ j → e'.bare = callee.bare → Runs rd E (f e') j Q) :
    Runs rd E (do
      let callee ← if ← atKeyword .kwNew then r.construct cx' else primary r cx'
      let callee ← tails r cx' false callee
      f callee) i Q := by
  obtain ⟨x, m, hbase, hx, hext⟩ := h.lead_closed (closed_of_constructs hconstructs)
  have hrest : ∀ x', i ≤ m → x'.bare = x.bare → Runs rd E (do
      let callee ← tails r cx' false x'
      f callee) m Q := fun x' _ hbare =>
    .found (tails_finds hr hext (closed_of_constructs hconstructs) (fun _ => hconstructs)
      (hend.imp id fun hk => ⟨rfl, hk⟩) hfits hbare (by omega)) fun e' _ => hf e' h.le
  rcases hx.isPrimary_or_isNew hbase with ⟨hprimary, hk⟩ | ⟨hnew, hk⟩
  · exact .misses hk (.no (.found (primary_finds hr hx hprimary hfits (by omega)) hrest))
  · exact .sees hk (.yes (.found (hr.construct rfl hx hnew hfits hd) hrest))

theorem construct_finds (h : Spells rd (.expr cx e) i j) (hnew : isNew e = true)
    (hfits : Fits E cx cx') (hd : rd.tokens.size ≤ i + d + 1) :
    Runs rd E (construct r cx') i (Finds Expr.bare e j) := by
  refine .here ?_
  cases h with
  | new hword hcallee hconstructs hopen hargs =>
    refine .readKeyword hword fun _ => callee_finds hr hcallee (.inl hconstructs) (.inr hopen.1)
      hfits (by omega) fun callee' _ hbare => .sees hopen.1 (.yes (.found
        (arguments_finds hr hopen hargs hfits (by omega)) fun args' _ hbare' =>
          .spanFrom fun _ _ => .pure ⟨rfl, ?_⟩))
    simp only [Expr.bare, hbare, hbare']
  | newBare hword hcallee hconstructs hends =>
    have hparen : rd.kindAt j ≠ .punct .lParen := by
      intro hk
      rw [hk] at hends
      cases hends
    exact .readKeyword hword fun _ => callee_finds hr hcallee hconstructs (.inl hends) hfits
      (by omega) fun _ _ hbare => .misses hparen (.no (.spanFrom fun _ _ =>
        .pure ⟨rfl, congrArg (Expr.newBare .nowhere) hbare⟩))
  | _ => cases hnew

theorem operand_finds (h : Spells rd (.expr cx e) i j) (hclosed : e.level = Level.closed)
    (hends : startsTail (rd.kindAt j) = false) (hfits : Fits E cx cx')
    (hd : rd.tokens.size ≤ i + d + 1) : Runs rd E (operand r cx') i (Finds Expr.bare e j) := by
  obtain ⟨x, m, hbase, hx, hext⟩ := h.lead_closed hclosed
  have hrest : ∀ x', i ≤ m → x'.bare = x.bare →
      Runs rd E (tails r cx' true x') m (Finds Expr.bare e j) := fun x' _ hbare =>
    tails_finds hr hext hclosed (fun h : true = false => nomatch h) (.inl hends) hfits hbare
      (by omega)
  rcases hx.isPrimary_or_isNew hbase with ⟨hprimary, hk⟩ | ⟨hnew, hk⟩
  · exact .misses hk (.no (.found (primary_finds hr hx hprimary hfits hd) hrest))
  · exact .sees hk (.yes (.found (construct_finds hr hx hnew hfits hd) hrest))

end

end

end Grammar
end ScriptBundler
