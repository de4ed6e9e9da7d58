import ScriptBundler.Proofs.Runs

/-!
# What parsers answer is spelled by the tokens they read

Each production is run at a position and what it answers is put together from
what its parts answer.  A production may call the rules only after it has read a
token: the bound on nested calls that is left at a position shrinks with every
token.
-/

namespace ScriptBundler
namespace Grammar

open Grammar.Parser

variable {n i d : Nat} {cx : Context} {e : Expr} {r : Rules} {required isAsync calls : Bool}
  {rest : List (BinaryOp × Expr)}

variable {ts : Reading} [ts.Ended] {H : Ending}

theorem stringBody_sound {quote : Token} (hn : ts.tokens.size ≤ i + n) :
    Meets ts (stringBody quote n) i fun _ => ts.StringRest quote.text i := by
  induction n generalizing i with
  | zero => exact .beyond hn
  | succ n ih =>
    unfold stringBody
    refine .rawPeek ?_
    split
    · exact .unexpectedAt
    · exact .unexpectedAt
    · rename_i hk
      refine .rawAdvance (readable hk) (.rawPeek (.ite (fun _ => .bind .unexpectedAt)
        fun hend => ?_))
      exact .rawAdvance hend ((ih (by omega)).mono fun _ _ _ => .escape hk hend)
    · rename_i hk
      refine .rawAdvance (readable hk) (.ite (fun htext => .pure (.close hk htext)) fun htext => ?_)
      exact (ih (by omega)).mono fun _ _ _ => .quoted hk htext
    · rename_i hend hline hescape hquote
      exact .rawAdvance hend ((ih (by omega)).mono fun _ _ _ => .plain hend hline hescape hquote)

theorem stringLiteral_sound (hk : ts.kindAt i = .stringQuote) :
    Meets ts stringLiteral i fun raw => ts.placed.StringAt raw i :=
  .nextIndex (.advance (readable hk) fun hlt => (stringBody_sound (by omega)).next
    fun _ _ _ hrest => .tail (.textFrom (.pure ⟨hk, hrest, rfl, trivial⟩)))

theorem expectString_sound : Meets ts expectString i fun raw => ts.placed.StringAt raw i :=
  .ifAt stringLiteral_sound fun _ => .unexpected

theorem templateBody_sound {sub : Parser Unit} {mark : Token} {first : Nat}
    (hsub : ∀ i, first ≤ i → Meets ts sub i fun _ => Derives ts.placed H (.substitution cx) i)
    (hi : first ≤ i) (hn : ts.tokens.size ≤ i + n) :
    Meets ts (templateBody sub mark n) i fun _ => Derives ts.placed H (.templateRest cx) i := by
  induction n generalizing i with
  | zero => exact .beyond hn
  | succ n ih =>
    have hagain : ∀ j, i < j → (∀ k, Derives ts.placed H (.templateRest cx) j k →
        Derives ts.placed H (.templateRest cx) i k) → Meets ts (templateBody sub mark n) j
          fun _ => Derives ts.placed H (.templateRest cx) i :=
      fun j hlt hcons => (ih (by omega) (by omega)).mono fun _ k _ => hcons k
    unfold templateBody
    refine .rawPeek ?_
    split
    · exact .unexpectedAt
    · rename_i hk
      refine .rawAdvance (readable hk) ?_
      by_cases hend : (ts.token (i + 1)).kind = .endOfInput
      · exact .rawAdvanceAtEnd hend (.ite (fun _ => .bind .unexpectedAt) fun h => absurd hend h)
      · refine .rawAdvance hend (.ite (fun h => absurd h hend) fun _ => .ite (fun hword => ?_)
          fun hword => ?_)
        · refine .rawPeek (.ite (fun hbrace => ?_) fun hbrace => ?_)
          · refine .rawAdvance (readable hbrace) ((hsub _ (by omega)).next fun _ j _ hsub => ?_)
            exact hagain j (by omega) fun _ =>
              .templateEscapeThen hk hword.1 hword.2.1 hword.2.2 hbrace hsub
          · exact hagain _ (by omega) fun _ => .templateEscape hk hend fun h => hbrace h.2.2.2
        · exact hagain _ (by omega) fun _ =>
            .templateEscape hk hend fun h => hword ⟨h.1, h.2.1, h.2.2.1⟩
    · rename_i hk
      exact .rawAdvance (readable hk) (.pure (.templateClose hk))
    · rename_i hk
      refine .rawPeekSecond (.rawAdvance (readable hk) (.ite (fun hsubst => ?_) fun hsubst => ?_))
      · refine .rawAdvance (readable hsubst.2) ((hsub _ (by omega)).next fun _ j _ hsub => ?_)
        exact hagain j (by omega) fun _ => .templateThen hk hsubst.1 hsubst.2 hsub
      · exact hagain _ (by omega) fun _ =>
          .templatePlain (readable hk) (by simp [hk]) (by simp [hk]) fun h => hsubst h.2
    · rename_i hend hescape hquote hword
      exact .rawAdvance hend (hagain _ (by omega) fun _ =>
        .templatePlain hend hescape hquote fun h => hword h.1)

theorem regexBody_sound {slash : Token} {inClass : Bool} (hn : ts.tokens.size ≤ i + n) :
    Meets ts (regexBody slash inClass n) i fun _ => ts.RegexRest inClass i := by
  induction n generalizing i inClass with
  | zero => exact .beyond hn
  | succ n ih =>
    have hagain : ∀ inClass' j, i < j → (∀ k, ts.RegexRest inClass' j k →
        ts.RegexRest inClass i k) →
        Meets ts (regexBody slash inClass' n) j fun _ => ts.RegexRest inClass i :=
      fun _ j hlt hcons => (ih (by omega)).mono fun _ k _ => hcons k
    unfold regexBody
    refine .rawPeek ?_
    split
    · exact .unexpectedAt
    · exact .unexpectedAt
    · rename_i hk
      refine .rawAdvance (readable hk) (.rawPeek (.ite (fun _ => .bind .unexpectedAt)
        fun hend => ?_))
      rw [not_or] at hend
      exact .rawAdvance hend.1 (hagain _ _ (by omega) fun _ => .escape hk hend.1 hend.2)
    · rename_i hk
      exact .rawAdvance (readable hk) (hagain _ _ (by omega) fun _ => .enter hk)
    · rename_i hk
      exact .rawAdvance (readable hk) (hagain _ _ (by omega) fun _ => .leave hk)
    · rename_i hk
      cases inClass with
      | false => exact .no (.pure (.close hk))
      | true => exact .yes (.rawAdvance (readable hk) (hagain _ _ (by omega) fun _ => .slash hk))
    · rename_i hend hline hescape hopen hclose hslash
      exact .rawAdvance hend (hagain _ _ (by omega) fun _ =>
        .plain hend hline hescape hopen hclose hslash)

omit [ts.Ended] in
theorem Stream.RegexRest.closed {inClass : Bool} {i j : Nat} (h : ts.RegexRest inClass i j) :
    (ts.token j).kind = .punct .slash := by
  induction h with
  | close hk => exact hk
  | escape _ _ _ _ ih => exact ih
  | enter _ _ ih => exact ih
  | leave _ _ ih => exact ih
  | slash _ _ ih => exact ih
  | plain _ _ _ _ _ _ _ ih => exact ih

theorem regexLiteral_sound (hk : ts.kindAt i = .punct .slash ∨ ts.kindAt i = .punct .slashEq) :
    Meets ts regexLiteral i fun re => ts.placed.RegexAt re.1 re.2 i := by
  unfold regexLiteral
  have hend : ts.kindAt i ≠ .endOfInput := by
    rcases hk with hk | hk <;> exact readable hk
  refine .advance hend fun _ => .rawIndex ((regexBody_sound (by omega)).next fun _ i₂ _ hrest => ?_)
  have hslash := hrest.closed
  refine .textFrom (.rawAdvance (readable hslash) (.rawPeek ?_))
  have hpattern : ∀ flags j, ts.FlagsAt flags (i₂ + 1) j →
      ts.placed.RegexAt (if ts.kindAt i = .punct .slashEq then
        "=" ++ ts.textBetween (ts.past i) i₂ else ts.textBetween (ts.past i) i₂) flags i j := by
    intro flags j hflags
    rcases hk with hk | hk
    · rw [if_neg (by rw [hk]; decide)]
      exact .slash hk hrest hflags trivial
    · rw [if_pos hk]
      exact .slashEq hk hrest hflags trivial
  refine .ite (fun hword => ?_) fun hword => .pure (hpattern _ _ (.none hword))
  exact .rawAdvance (readable hword) (.pure (hpattern _ _ (.some hword)))

/-!
# Rules

Rules are sound at positions that leave room for the calls that they make.
-/

/-- The expression between commas that another one ends with. -/
def lastValue : Expr → Option Expr
  | .arrow _ _ _ value | .assign _ _ _ value | .assignPattern _ _ value
  | .yield _ _ (some value) | .conditional _ _ _ value => some value
  | _ => none

/-- How an expression ends when the ends of its parts are as they are asked to
be. -/
def Settles (ts : Reading) (H : Ending) : Ending := fun noIn j e =>
  Stops ts noIn j e ∧ ∀ value ∈ lastValue e, H noIn j value

theorem lastValue_of_lt_level (h : Level.conditional < e.level) : lastValue e = none := by
  cases e with
  | arrow | assign | assignPattern | yield | conditional =>
    exact absurd h (by simp only [Expr.level]; decide)
  | _ => rfl

def Assigned (ts : Reading) (H H' : Ending) (cx : Context) (i : Nat) (e : Expr) (j : Nat) : Prop :=
  Derives ts.placed H (.expr cx e) i j ∧ Level.assignment ≤ e.level ∧ H' cx.noIn j e

def Signed (ts : Reading) (H : Ending) (cx : Context) (i : Nat) (e : Expr) (j : Nat) : Prop :=
  Derives ts.placed H (.expr cx e) i j ∧ Level.unary ≤ e.level ∧ OperandStops ts j e

def Operated (ts : Reading) (H : Ending) (cx : Context) (i : Nat) (e : Expr) (j : Nat) : Prop :=
  Derives ts.placed H (.expr cx e) i j ∧ e.level = Level.closed ∧
    startsTail (ts.kindAt j) = false

def Constructed (ts : Reading) (H : Ending) (cx : Context) (i : Nat) (e : Expr) (j : Nat) : Prop :=
  Derives ts.placed H (.expr cx e) i j ∧ e.level = Level.closed ∧
    (constructs e = true ∨ isNewBare e = true ∧ startsTail (ts.kindAt j) = false)

/-- Rules that answer what is spelled, at positions that leave room for `d`
nested calls. -/
structure Sound (ts : Reading) (H : Ending) (d : Nat) (r : Rules) : Prop where
  stops : ∀ {noIn j e}, H noIn j e → Stops ts noIn j e
  assignment : ∀ {i cx}, (hd : ts.tokens.size ≤ i + d) →
    Meets ts (r.assignment cx) i (Assigned ts H H cx i)
  unary : ∀ {i cx}, (hd : ts.tokens.size ≤ i + d) →
    Meets ts (r.unary cx) i (Signed ts H cx i)
  operand : ∀ {i cx}, (hd : ts.tokens.size ≤ i + d) →
    Meets ts (r.operand cx) i (Operated ts H cx i)
  construct : ∀ {i cx}, (hd : ts.tokens.size ≤ i + d) →
    Meets ts (r.construct cx) i (Constructed ts H cx i)
  pattern : ∀ {i cx}, (hd : ts.tokens.size ≤ i + d) →
    Meets ts (r.pattern cx) i fun b => Derives ts.placed H (.binding cx.allowIn b) i
  statement : ∀ {i cx}, (hd : ts.tokens.size ≤ i + d) →
    Meets ts (r.statement cx) i fun st => Derives ts.placed H (.stmt cx st) i

theorem commaSequence_sound {item : Parser Expr}
    (hitem : ∀ i', i ≤ i' → Meets ts item i' (Assigned ts H H cx i')) :
    Meets ts (commaSequence item) i fun e j =>
      Derives ts.placed H (.expr cx e) i j ∧ SequenceStops ts H cx.noIn j e := by
  refine .here ((hitem i (Nat.le_refl i)).next ?_)
  rintro first i₁ hle ⟨hfirst, hlevel, hstops⟩
  refine .ifAt (fun hcomma => ?_) fun hcomma => .pure ⟨hfirst, ?_⟩
  · have hothers : Meets ts (collectWhile (eatMark .comma) item) i₁ fun others j =>
        Derives ts.placed H (.others cx others) i₁ j ∧ ts.kindAt j ≠ .punct .comma ∧
          ∀ e ∈ others.getLast?, H cx.noIn j e := by
      -- The items read so far, the last of which does not go on.
      refine .collect (fun done j => (done = [] → j = i₁) ∧
        (∀ es k, Derives ts.placed H (.others cx es) j k →
          Derives ts.placed H (.others cx (done.reverse ++ es)) i₁ k) ∧
        (done ≠ [] → Derives ts.placed H (.others cx done.reverse) i₁ j) ∧
        ∀ e ∈ done.head?, H cx.noIn j e)
        ⟨fun _ => rfl, fun _ _ h => h, fun h => absurd rfl h, nofun⟩ ?_
      rintro done j hle' ⟨hnil, hmore, hdone, hlast⟩
      refine .ifEat (fun i₂ hread hlt => (hitem i₂ (by omega)).next ?_) fun hno => .pure ?_
      · rintro e i₃ _ ⟨he, helevel, hestops⟩
        refine .pure ⟨by omega, nofun, fun es k hes => ?_, fun _ => ?_, fun e' he' => ?_⟩
        · rw [List.reverse_cons, List.append_assoc]
          exact hmore _ k (.moreOthers hread he helevel hes)
        · rw [List.reverse_cons]
          exact hmore _ _ (.other hread he helevel)
        · exact Option.some.inj he' ▸ hestops
      · have hne : done ≠ [] := fun h => hno (hnil h ▸ hcomma)
        refine ⟨hdone hne, hno, ?_⟩
        rw [List.getLast?_reverse]
        exact hlast
    refine hothers.next ?_
    rintro others i₂ _ ⟨hothers, hno, hlast⟩
    refine .spanFrom fun _ hsp => .pure ⟨.sequence hfirst hlevel hothers hsp, hno, ?_⟩
    cases others with
    | nil => cases hothers
    | cons e es =>
      rw [List.getLast?_cons_cons]
      exact hlast
  · cases first with
    | sequence sp items => exact absurd hlevel (by change ¬ 3 ≤ 1; decide)
    | _ => exact ⟨hcomma, hstops⟩

section
variable (hr : Sound ts H d r)
include hr

theorem expression_sound (hd : ts.tokens.size ≤ i + d) :
    Meets ts (expression r cx) i fun e j =>
      Derives ts.placed H (.expr cx e) i j ∧ SequenceStops ts H cx.noIn j e :=
  commaSequence_sound fun _ _ => hr.assignment (by omega)

theorem statementsUntil_sound {stop : List Token.Kind} (hd : ts.tokens.size ≤ i + d) :
    Meets ts (statementsUntil stop (r.statement cx)) i fun body =>
      Derives ts.placed H (.stmts cx stop body) i := by
  refine .collect (fun done j => ∀ rest k, Derives ts.placed H (.stmts cx stop rest) j k →
    Derives ts.placed H (.stmts cx stop (done.reverse ++ rest)) i k) (fun _ _ h => h) ?_
  intro done j hle hdone
  refine .peekKind (.ite (fun hstop => .pure ?_) fun hstop => ?_)
  · have h := hdone [] j (.noStmts hstop)
    rwa [List.append_nil] at h
  · refine (hr.statement (by omega)).next fun st i₁ _ hst => ?_
    refine .pure ⟨hst.lt rfl, fun rest k hrest => ?_⟩
    rw [List.reverse_cons, List.append_assoc]
    exact hdone _ k (.moreStmts hstop hst hrest)

theorem block_sound (hd : ts.tokens.size ≤ i + d + 1) :
    Meets ts (block r cx) i fun body => Derives ts.placed H (.block cx body) i :=
  .expectMark fun _ h₁ _ => (statementsUntil_sound hr (by omega)).next fun _ _ _ hbody =>
    .expectMark fun _ h₃ _ => .pure (.block h₁ hbody h₃)

theorem template_sound (hk : ts.kindAt i = .templateQuote) (hd : ts.tokens.size ≤ i + d + 1) :
    Meets ts (template r cx) i fun raw => Derives ts.placed H (.template cx raw) i :=
  .nextIndex (.advance (readable hk) fun hlt => (templateBody_sound
    (fun _ _ => (expression_sound hr (by omega)).next fun _ _ _ he =>
      .tail (.expectMark fun _ h₂ _ => .pure (.substitution he.1 h₂))) hlt (by omega)).next
    fun _ _ _ hrest => .tail (.textFrom (.pure (.template hk hrest rfl trivial))))

theorem propertyKey_sound (hd : ts.tokens.size ≤ i + d + 1) :
    Meets ts (propertyKey r cx) i fun key => Derives ts.placed H (.key cx.allowIn key) i := by
  unfold propertyKey
  refine .peek (.ite (fun hname => .advance (fun h => ?_) fun _ => .pure ?_) fun hname => ?_)
  · change (ts.kindAt i).isName = true at hname
    rw [h] at hname
    cases hname
  · exact .keyName hname rfl ⟨rfl, trivial⟩
  · split
    · rename_i hk
      exact (stringLiteral_sound hk).next fun _ _ _ h => .pure (.keyString h)
    · rename_i hk
      exact .advanceAt hk fun _ h _ => .pure (.keyNumber h rfl)
    · rename_i hk
      exact .advanceAt hk fun _ h₁ _ => (hr.assignment (by omega)).next fun _ _ _ he =>
        .expectMark fun _ h₃ _ => .pure (.keyComputed h₁ he.1 he.2.1 h₃)
    · exact .unexpected

theorem defaultValue_sound (hd : ts.tokens.size ≤ i + d + 1) :
    Meets ts (defaultValue r cx) i fun v => Derives ts.placed H (.value cx.allowIn v) i :=
  .ifEat (fun _ h₁ _ => (hr.assignment (by omega)).next fun _ _ _ he =>
    .pure (.value h₁ he.1 he.2.1 he.2.2))
    fun hno => .pure (.noValue hno)

theorem arrayElement_sound (hd : ts.tokens.size ≤ i + d) :
    Meets ts (arrayElement r cx) i fun e =>
      Derives ts.placed H (.item cx.allowIn .arrayElement e) i :=
  .ifEat (fun _ h₁ _ => (hr.pattern (by omega)).next fun _ _ _ hb => .pure (.arrayRest h₁ hb))
    fun _ => (hr.pattern (by omega)).next fun _ _ _ hb =>
    (defaultValue_sound hr (by omega)).next fun _ _ _ hv =>
      .pure (.arrayItem hb hv)

theorem keyedElement_sound {mayBeShort : Bool} (hd : ts.tokens.size ≤ i + d)
    (hshort : mayBeShort = true → ts.kindAt i = .identifier) : Meets ts (do
      let key ← propertyKey r cx
      if ← eatMark .colon then
        let value ← r.pattern cx
        return .pair key value (← defaultValue r cx)
      else
        match key with
        | .ident name =>
          if mayBeShort then
            let span ← spanFrom (ts.nextAt i).span.start
            return .shorthand span name (← defaultValue r cx)
          else
            unexpected
        | _ => unexpected) i fun e =>
      Derives ts.placed H (.item cx.allowIn .objectElement e) i := by
  refine (propertyKey_sound hr (by omega)).next fun key _ _ hkey =>
    .ifEat (fun _ h₂ _ => ?_) fun hcolon => ?_
  · exact (hr.pattern (by omega)).next fun _ _ _ hb =>
      (defaultValue_sound hr (by omega)).next fun _ _ _ hv =>
      .pure (.objectPair hkey h₂ hb hv)
  · split
    · refine .ite (fun h => .spanFrom fun _ hsp => ?_) fun _ => .unexpected
      cases hkey with
      | keyName _ htext hpast =>
        exact (defaultValue_sound hr (by omega)).next fun _ _ _ hv =>
          .pure (.objectShort ⟨⟨hshort h, hpast⟩, htext⟩ hcolon hv hsp)
    · exact .unexpected

theorem objectElement_sound (hd : ts.tokens.size ≤ i + d) :
    Meets ts (objectElement r cx) i fun e =>
      Derives ts.placed H (.item cx.allowIn .objectElement e) i := by
  unfold objectElement
  refine .ifEat (fun _ h₁ _ => .here (.identifier fun _ h₂ _ => .spanFrom fun _ hsp =>
    .pure (.objectRest h₁ ⟨h₂, rfl⟩ hsp))) fun _ => ?_
  exact .isAt (fun hk => .here (keyedElement_sound hr hd fun _ => hk)) fun _ =>
    .here (keyedElement_sound hr hd nofun)

theorem pattern_sound (hd : ts.tokens.size ≤ i + d + 1) :
    Meets ts (pattern r cx) i fun b => Derives ts.placed H (.binding cx.allowIn b) i := by
  unfold pattern
  refine .here (.peekKind ?_)
  have hname : Meets ts (do
      let name ← variableName
      return .ident (← spanFrom (ts.nextAt i).span.start) name) i
      fun b => Derives ts.placed H (.binding cx.allowIn b) i :=
    .variableName fun _ hk h₁ _ => .spanFrom fun _ hsp => .pure (.bound hk rfl h₁ hsp)
  split
  · exact hname
  · exact hname
  · exact .expectMark fun _ h₁ _ =>
      .next (.commaList (c := .arrayElement) fun _ _ => arrayElement_sound hr (by omega))
      fun _ _ _ helements =>
        .spanFrom fun _ hsp => .pure (.boundArray h₁ helements hsp)
  · exact .expectMark fun _ h₁ _ =>
      .next (.commaList (c := .objectElement) fun _ _ => objectElement_sound hr (by omega))
        fun _ _ _ hproperties => .spanFrom fun _ hsp => .pure (.boundObject h₁ hproperties hsp)
  · exact .unexpected

theorem param_sound (hd : ts.tokens.size ≤ i + d) :
    Meets ts (param r cx) i fun p => Derives ts.placed H (.item cx.allowIn .param p) i :=
  .here (.ifEat
    (fun _ h₁ _ => (hr.pattern (by omega)).next fun _ _ _ hb => .spanFrom fun _ hsp =>
      .pure (.restParam h₁ hb hsp))
    fun _ => (hr.pattern (by omega)).next fun _ _ _ hb =>
    (defaultValue_sound hr (by omega)).next fun _ _ _ hv =>
      .spanFrom fun _ hsp => .pure (.plainParam hb hv hsp))

theorem params_sound (hd : ts.tokens.size ≤ i + d + 1) :
    Meets ts (params r cx) i fun ps j => i < j ∧ ∃ i₁, ts.placed.Reads (.punct .lParen) i i₁ ∧
      Derives ts.placed H (.items cx.allowIn .param ps) i₁ j :=
  .expectMark fun i₁ h₁ _ => .mono (.commaList (c := .param) fun _ _ => param_sound hr (by omega))
    fun _ _ _ hps => ⟨by omega, i₁, h₁, hps⟩

omit hr in
theorem declaredName_sound :
    Meets ts (declaredName required) i fun name j =>
      ts.placed.MayName name i j ∧ (required = true → name.isSome = true) :=
  .ifAt (fun _ => .map (.tail (.identifier fun _ h₁ _ => .pure ⟨.yes ⟨h₁, rfl⟩, fun _ => rfl⟩)))
    fun hno => .ite (fun _ => .unexpected) fun h => .pure ⟨.no hno, fun hr => absurd hr h⟩

theorem callable_sound {isAsync isGenerator : Bool} {α : Type}
    {f : List Param → List Stmt → Parser α} {Q : α → Nat → Prop}
    (hd : ts.tokens.size ≤ i + d + 1) (hf : ∀ params body j, i ≤ j →
      Derives ts.placed H (.callable (Context.function isAsync isGenerator) params body) i j →
      Meets ts (f params body) j Q) :
    Meets ts (do
      let ps ← params r (Context.function isAsync isGenerator)
      let body ← block r (Context.function isAsync isGenerator)
      f ps body) i Q := by
  refine (params_sound hr (by omega)).next ?_
  rintro ps _ _ ⟨_, i₁, hopen, hps⟩
  exact (block_sound hr (by omega)).next fun body j _ hbody =>
    hf ps body j (by omega) (.callable hopen hps hbody)

theorem function_sound (hd : ts.tokens.size ≤ i + d + 1) :
    Meets ts (function r isAsync required) i fun f j => Derives ts.placed H (.funcRest f) i j ∧
      f.isAsync = isAsync ∧ (required = true → f.name.isSome = true) ∧ ts.Spans i j f.span := by
  unfold function
  refine .here (.expectKeyword fun i₁ h₁ _ => ?_)
  have hrest : ∀ (isGenerator : Bool) i₂, i₁ ≤ i₂ →
      ts.placed.MayRead (.punct .star) isGenerator i₁ i₂ → Meets ts (do
        let name ← declaredName required
        let ps ← params r (Context.function isAsync isGenerator)
        let body ← block r (Context.function isAsync isGenerator)
        return (⟨← spanFrom (ts.nextAt i).span.start, name, isAsync, isGenerator, ps, body⟩ : Func))
        i₂ fun f j => Derives ts.placed H (.funcRest f) i j ∧ f.isAsync = isAsync ∧
          (required = true → f.name.isSome = true) ∧ ts.Spans i j f.span := by
    intro isGenerator i₂ hle hstar
    refine declaredName_sound.next ?_
    rintro name i₃ _ ⟨hname, hrequired⟩
    exact callable_sound hr (by omega) fun ps body j _ hcall => .spanFrom fun _ hsp =>
      .pure ⟨.funcRest h₁ hstar hname hcall, rfl, hrequired, hsp⟩
  exact .eat (fun i₂ hstar hlt => hrest true i₂ (by omega) (.yes hstar))
    fun hno => hrest false i₁ (by omega) (.no hno)

theorem asyncFunction_sound (hk : ts.kindAt i = .keyword .kwAsync)
    (hd : ts.tokens.size ≤ i + d + 1) :
    Meets ts (asyncFunction r required) i fun f j => Derives ts.placed H (.func f) i j ∧
      (required = true → f.name.isSome = true) := by
  unfold asyncFunction
  refine .here (.advanceAt hk fun i₁ h₁ _ => (function_sound hr (by omega)).next ?_)
  rintro f j _ ⟨hf, hasync, hrequired, _⟩
  refine .spanFrom fun _ hsp => .pure ⟨?_, hrequired⟩
  cases hf with
  | funcRest hword hstar hname hcall =>
    exact .asyncFunc hasync h₁ (.funcRest hword hstar hname hcall) (.inl hsp)

omit hr in
theorem methodStart_sound : Meets ts methodStart i fun m => ts.placed.MethodStartAt m i := by
  unfold methodStart
  refine .peekSecondKind (.ite (fun hnamed => ?_) fun hnot => ?_)
  · exact .eat (fun _ h₁ _ => .pure (.named hnamed (.yes h₁)))
      fun hno => .pure (.named hnamed (.no hno))
  · have hnot := Bool.eq_false_iff.mpr hnot
    refine .eatWord (fun _ h₁ _ => .yes (.pure (.get hnot h₁))) fun hget => .no ?_
    refine .eatWord (fun _ h₁ _ => .yes (.pure (.set hnot h₁))) fun hset => .no ?_
    refine .ifEat (fun _ h₁ _ => ?_) fun hasync => ?_
    · exact .eat (fun _ h₂ _ => .pure (.async hnot h₁ (.yes h₂)))
        fun hno => .pure (.async hnot h₁ (.no hno))
    · have hword : ¬ (ts.kindAt i = .identifier ∧
          (ts.textAt i = "get" ∨ ts.textAt i = "set")) := by
        rintro ⟨hk, ht | ht⟩
        · exact hget ⟨hk, ht⟩
        · exact hset ⟨hk, ht⟩
      exact .eat (fun _ h₁ _ => .pure (.plain hword hasync (.yes h₁)))
        fun hno => .pure (.plain hword hasync (.no hno))

theorem methodBody_sound {first : Nat} {m : MethodStart} (hd : ts.tokens.size ≤ i + d + 1) :
    Meets ts (methodBody r (ts.nextAt first).span.start m) i fun f j => ∃ span params body,
      f = ⟨span, none, m.isAsync, m.isGenerator, params, body⟩ ∧ ts.Spans first j span ∧
        Derives ts.placed H (.callable (Context.function m.isAsync m.isGenerator) params body)
          i j :=
  callable_sound hr (by omega) fun ps body _ _ hcall => .spanFrom fun span hsp =>
    .pure ⟨span, ps, body, rfl, hsp, hcall⟩

omit hr in
theorem MethodStart.eq_of_isPlain {m : MethodStart} (h : m.isPlain = true) :
    m = ⟨.method, false, false⟩ := by
  obtain ⟨kind, isAsync, isGenerator⟩ := m
  unfold MethodStart.isPlain at h
  simp only [Bool.and_eq_true, Bool.not_eq_true', decide_eq_true_eq] at h
  obtain ⟨⟨rfl, rfl⟩, rfl⟩ := h
  rfl

theorem classMember_sound (hd : ts.tokens.size ≤ i + d + 1) :
    Meets ts (classMember r cx) i fun m => Derives ts.placed H (.member cx.allowIn m) i := by
  unfold classMember
  have hrest : ∀ (isStatic : Bool) i₁, i ≤ i₁ → ts.placed.StaticAt isStatic i i₁ → Meets ts (do
        let m ← methodStart
        let key ← propertyKey r cx
        if ← atMark .lParen then
          let value ← methodBody r (ts.nextAt i).span.start m
          return ClassMember.method (← spanFrom (ts.nextAt i).span.start) m.kind isStatic key value
        else if m.isPlain then
          let value ← defaultValue r cx
          semicolon
          return ClassMember.field (← spanFrom (ts.nextAt i).span.start) isStatic key value
        else
          unexpected) i₁ fun m => Derives ts.placed H (.member cx.allowIn m) i := by
    intro isStatic i₁ hle hstatic
    refine methodStart_sound.next fun m i₂ _ hm =>
      (propertyKey_sound hr (by omega)).next fun key i₃ _ hkey => ?_
    refine .ifAt (fun _ => (methodBody_sound hr (by omega)).next ?_) fun hparen =>
      .ite (fun hplain => ?_) fun _ => .unexpected
    · rintro f j _ ⟨span, ps, body, rfl, hsp', hcall⟩
      exact .spanFrom fun _ hsp => .pure (.method hstatic hm hkey hcall hsp' hsp)
    · obtain rfl := MethodStart.eq_of_isPlain hplain
      exact (defaultValue_sound hr (by omega)).next fun _ _ _ hv => .semicolon fun _ hclose _ =>
        .spanFrom fun _ hsp => .pure (.field hstatic hm hkey hparen hv hclose hsp)
  refine .here (.isAt (fun hk => .peekSecondKind (.ite (fun h => ?_) fun h => ?_)) fun hk => ?_)
  · rw [Bool.true_and, Bool.not_eq_true'] at h
    refine .advanceAt hk fun i₁ h₁ hlt => ?_
    rw [h, Bool.true_and, Bool.not_false]
    exact hrest true i₁ (by omega) (.yes h₁ (h₁.2.1 ▸ h))
  · rw [Bool.true_and, Bool.not_eq_true', Bool.not_eq_false] at h
    rw [h, Bool.true_and, Bool.not_true]
    exact hrest false i (by omega) (.no fun _ => h)
  · exact .peekSecondKind (.no (hrest false i (by omega) (.no fun h => absurd h hk)))

theorem classParts_sound (hd : ts.tokens.size ≤ i + d + 1) :
    Meets ts (classParts r cx required) i fun parts j =>
      Derives ts.placed H (.classRest cx parts.name parts.parent parts.members) i j ∧
        (required = true → parts.name.isSome = true) := by
  unfold classParts
  refine .expectKeyword fun i₁ h₁ _ => declaredName_sound.next ?_
  rintro name i₂ _ ⟨hname, hrequired⟩
  have hrest : ∀ parent i₃, i₂ ≤ i₃ → Derives ts.placed H (.parent cx parent) i₂ i₃ →
      Meets ts (do
        expectMark .lBrace
        let members ← collect do
          if ← eatMark .rBrace then return none
          else if ← eatMark .semicolon then return some none
          else return some (some (← classMember r cx))
        return (⟨name, parent, members.filterMap id⟩ : ClassParts)) i₃ fun parts j =>
        Derives ts.placed H (.classRest cx parts.name parts.parent parts.members) i j ∧
          (required = true → parts.name.isSome = true) := by
    intro parent i₃ hle hparent
    refine .expectMark fun i₄ h₄ _ => .bind (.collect (fun done j => ∀ ms k,
      Derives ts.placed H (.members cx.allowIn ms) j k →
        Derives ts.placed H (.members cx.allowIn (done.reverse.filterMap id ++ ms)) i₄ k)
      (fun _ _ h => h) fun done j _ hdone => ?_)
    refine .ifEat (fun k hclose _ => .pure (.pure ?_)) fun _ => .ifEat (fun k hsemi hlt => ?_)
      fun _ => (classMember_sound hr (by omega)).next fun m k _ hm => ?_
    · have h := hdone [] k (.noMembers hclose)
      rw [List.append_nil] at h
      exact ⟨.classRest h₁ hname hparent h₄ h, hrequired⟩
    · refine .pure ⟨hlt, fun ms k' hms => ?_⟩
      have h := hdone ms k' (.skipMember hsemi hms)
      simpa using h
    · refine .pure ⟨hm.lt rfl, fun ms k' hms => ?_⟩
      have h := hdone (m :: ms) k' (.moreMembers hm hms)
      simpa using h
  refine .ifEat (fun i₃ h₃ hlt => .bind (.map ((hr.operand (by omega)).mono fun e i₄ _ he => ?_)))
    fun hno => .bind (.pure (hrest none i₂ (Nat.le_refl i₂) (.noParent hno)))
  exact hrest (some e) i₄ (by omega) (.parent h₃ he.1 he.2.1)

theorem spreadOrAssignment_sound (hd : ts.tokens.size ≤ i + d) :
    Meets ts (spreadOrAssignment r cx) i fun e => Derives ts.placed H (.item cx .arg e) i :=
  .here (.ifEat
    (fun _ h₁ _ => (hr.assignment (by omega)).next fun _ _ _ he => .spanFrom fun _ hsp =>
      .pure (.spreadArg h₁ he.1 he.2.1 hsp))
    fun _ => (hr.assignment (by omega)).mono fun _ _ _ he => .plainArg he.1 he.2.1)

theorem arguments_sound (hd : ts.tokens.size ≤ i + d + 1) :
    Meets ts (arguments r cx) i fun args j => i < j ∧ ∃ i₁,
      ts.placed.Reads (.punct .lParen) i i₁ ∧
        Derives ts.placed H (.items cx.allowIn .arg args) i₁ j :=
  .expectMark fun i₁ h₁ _ => .mono
    (.commaList (c := .arg) fun _ _ => spreadOrAssignment_sound hr (by omega))
    fun _ _ _ hargs => ⟨by omega, i₁, h₁, hargs⟩

theorem arrayLiteral_sound (hd : ts.tokens.size ≤ i + d + 1) :
    Meets ts (arrayLiteral r cx) i fun elements j => ∀ span, ts.Spans i j span →
      Derives ts.placed H (.expr cx (.array span elements)) i j :=
  .expectMark fun _ h₁ _ => .mono
    (.commaList (c := .element) fun _ _ =>
      .map ((spreadOrAssignment_sound hr (by omega)).mono fun _ _ _ he => .element he))
    fun _ _ _ helements _ => .array h₁ helements

theorem keyedProperty_sound {mayBeShort : Bool} (hd : ts.tokens.size ≤ i + d)
    (hshort : mayBeShort = true → ts.kindAt i = .identifier) : Meets ts (do
      let m ← methodStart
      let key ← propertyKey r cx.allowIn
      if !m.isPlain || (← atMark .lParen) then
        return Property.method m.kind key (← methodBody r (ts.nextAt i).span.start m)
      else if ← eatMark .colon then
        return Property.pair key (← r.assignment cx.allowIn)
      else
        match key with
        | .ident name => if mayBeShort then return Property.shorthand name else unexpected
        | _ => unexpected) i fun p => Derives ts.placed H (.item cx.allowIn .property p) i := by
  refine methodStart_sound.next fun m i₁ _ hm =>
    (propertyKey_sound hr (by omega)).next fun key i₂ _ hkey => ?_
  have hlt := hkey.lt rfl
  have hmethod : Meets ts (do
      return Property.method m.kind key (← methodBody r (ts.nextAt i).span.start m)) i₂
      fun p => Derives ts.placed H (.item cx.allowIn .property p) i := by
    refine (methodBody_sound hr (by omega)).next ?_
    rintro f j _ ⟨span, ps, body, rfl, hsp, hcall⟩
    exact .pure (.methodProperty hm hkey hcall hsp)
  refine .isAt (fun _ => ?_) fun hparen => .ite (fun _ => hmethod) fun hplain => ?_
  · rw [if_pos (Bool.or_true _)]
    exact hmethod
  · rw [Bool.or_false, Bool.not_eq_true', Bool.not_eq_false] at hplain
    obtain rfl := MethodStart.eq_of_isPlain hplain
    refine .ifEat (fun _ h₃ _ => (hr.assignment (by omega)).next fun _ _ _ he =>
      .pure (.pair hm hkey h₃ he.1 he.2.1)) fun hcolon => ?_
    split
    · refine .ite (fun h => .pure ?_) fun _ => .unexpected
      have hstart : i₁ = i := by
        cases hm with
        | named _ hstar => exact hstar.eq_of_false
        | plain _ _ hstar => exact hstar.eq_of_false
      rw [hstart] at hm hkey
      cases hkey with
      | keyName _ htext hpast => exact .shorthand hm ⟨⟨hshort h, hpast⟩, htext⟩ hparen hcolon
    · exact .unexpected

theorem property_sound (hd : ts.tokens.size ≤ i + d) :
    Meets ts (property r cx.allowIn) i fun p =>
      Derives ts.placed H (.item cx.allowIn .property p) i := by
  unfold property
  refine .here (.ifEat (fun _ h₁ _ => (hr.assignment (by omega)).next fun _ _ _ he =>
    .pure (.spreadProperty h₁ he.1 he.2.1)) fun _ => ?_)
  exact .isAt (fun hk => keyedProperty_sound hr hd fun _ => hk) fun _ =>
    keyedProperty_sound hr hd nofun

theorem objectLiteral_sound (hd : ts.tokens.size ≤ i + d + 1) :
    Meets ts (objectLiteral r cx) i fun properties j => ∀ span, ts.Spans i j span →
      Derives ts.placed H (.expr cx (.object span properties)) i j :=
  .expectMark fun _ h₁ _ => .mono
    (.commaList (c := .property) fun _ _ => property_sound hr (by omega))
    fun _ _ _ hproperties _ => .object h₁ hproperties

end

def isPrimary : Expr → Bool
  | .dot _ _ _ _ | .index _ _ _ | .call _ _ _ | .tagged _ _ _ | .new _ _ _ | .newBare _ _ => false
  | e => decide (e.level = Level.closed)

theorem primary_sound (hr : Sound ts H d r) (hd : ts.tokens.size ≤ i + d + 1) :
    Meets ts (primary r cx) i fun e j =>
      Derives ts.placed H (.expr cx e) i j ∧ isPrimary e = true := by
  unfold primary
  refine .peek ?_
  have htoken : ∀ (k : Token.Kind) [Readable k] (f : Span → Expr), ts.kindAt i = k →
      (∀ sp j, ts.placed.Reads k i j → ts.Spans i j sp →
        Derives ts.placed H (.expr cx (f sp)) i j) → (∀ sp, isPrimary (f sp) = true) → Meets ts (do
        let _ ← advance
        return f (← spanFrom (ts.nextAt i).span.start)) i fun e j =>
          Derives ts.placed H (.expr cx e) i j ∧ isPrimary e = true :=
    fun _ _ _ hk hspell hprimary => .advanceAt hk fun j h _ => .spanFrom fun sp hsp =>
      .pure ⟨hspell sp j h hsp, hprimary sp⟩
  split
  · exact (classParts_sound hr hd).next fun _ _ _ h => .spanFrom fun _ hsp =>
      .pure ⟨.class h.1 hsp, rfl⟩
  · exact (objectLiteral_sound hr hd).next fun _ _ _ h => .spanFrom fun sp hsp =>
      .pure ⟨h sp hsp, rfl⟩
  · rename_i hk
    exact (stringLiteral_sound hk).next fun _ _ _ h => .spanFrom fun _ hsp =>
      .pure ⟨.string h hsp, rfl⟩
  · rename_i hk
    refine .advanceAt hk fun _ h _ => .rawPeek (.ite (fun _ => .bind .unexpectedAt) fun hnext => ?_)
    rw [not_or] at hnext
    exact .spanFrom fun _ hsp => .pure ⟨.number h rfl hnext.1 hnext.2 hsp, rfl⟩
  · rename_i hk
    exact htoken _ (.bool · true) hk (fun _ _ => .trueWord) fun _ => rfl
  · rename_i hk
    exact htoken _ (.bool · false) hk (fun _ _ => .falseWord) fun _ => rfl
  · rename_i hk
    exact htoken _ .null hk (fun _ _ => .null) fun _ => rfl
  · rename_i hk
    exact (template_sound hr hk hd).next fun _ _ _ h => .spanFrom fun _ hsp =>
      .pure ⟨.quasi h hsp, rfl⟩
  · rename_i hk
    exact .advanceAt hk fun _ h₁ _ => (expression_sound hr (by omega)).next fun _ _ _ he =>
      .expectMark fun _ h₃ _ => .spanFrom fun _ hsp => .pure ⟨.paren h₁ he.1 h₃ hsp, rfl⟩
  · rename_i hk
    exact (regexLiteral_sound (.inl hk)).next fun _ _ _ h => .spanFrom fun _ hsp =>
      .pure ⟨.regex h hsp, rfl⟩
  · rename_i hk
    exact (regexLiteral_sound (.inr hk)).next fun _ _ _ h => .spanFrom fun _ hsp =>
      .pure ⟨.regex h hsp, rfl⟩
  · exact (arrayLiteral_sound hr hd).next fun _ _ _ h => .spanFrom fun sp hsp =>
      .pure ⟨h sp hsp, rfl⟩
  · rename_i hk
    exact htoken _ (.ident · _) hk (fun _ _ h => .ident ⟨h, rfl⟩) fun _ => rfl
  · refine (function_sound hr hd).next ?_
    rintro f j _ ⟨hf, hasync, _, hsp'⟩
    exact .spanFrom fun _ hsp => .pure ⟨.function (.func hasync hf hsp') hsp, rfl⟩
  · rename_i hk
    refine .peekSecondKind (.ite (fun _ => ?_) fun hnot => ?_)
    · exact (asyncFunction_sound hr hk hd).next fun _ _ _ h => .spanFrom fun _ hsp =>
        .pure ⟨.function h.1 hsp, rfl⟩
    · exact htoken _ (.ident · _) hk (fun _ _ h => .asyncIdent h rfl (h.2.1 ▸ hnot)) fun _ => rfl
  · rename_i hk
    exact htoken _ .this hk (fun _ _ => .this) fun _ => rfl
  · rename_i hk
    exact htoken _ .super hk (fun _ _ => .super) fun _ => rfl
  · exact .unexpected

theorem IsObject.of_isPrimary (h : isPrimary e = true) : IsObject e ∧ constructs e = true := by
  cases e with
  | dot | index | call | tagged | new | newBare => cases h
  | _ => exact ⟨⟨of_decide_eq_true h, rfl⟩, h⟩

omit [ts.Ended] in
theorem Derives.spans_of_closed {j : Nat} (h : Derives ts.placed H (.expr cx e) i j)
    (hclosed : e.level = Level.closed) : ts.Spans i j e.span := by
  cases h with
  | @binary _ _ _ op =>
    have hbounds := BinaryOp.level_bounds op
    change op.level = Level.closed at hclosed
    exact absurd (hclosed ▸ hbounds.2) (by decide)
  | _ => assumption

/-- What holds before and after each member access: nothing is put behind `new`
without arguments, and no call stands where `new` looks for its arguments. -/
structure TailsInvariant (ts : Reading) (H : Ending) (cx : Context) (calls : Bool) (i : Nat)
    (e : Expr) (j : Nat) : Prop where
  spelled : Derives ts.placed H (.expr cx e) i j
  closed : e.level = Level.closed
  ends : isNewBare e = true → startsTail (ts.kindAt j) = false
  constructs : calls = false → constructs e = true ∨ isNewBare e = true

section
variable {p : Nat}

omit [ts.Ended] in
theorem TailsInvariant.isObject (h : TailsInvariant ts H cx calls i e p)
    (hk : startsTail (ts.kindAt p) = true) :
    IsObject e ∧ (calls = false → Grammar.constructs e = true) := by
  have hbare : isNewBare e = false := by
    rw [Bool.eq_false_iff]
    intro hbare
    rw [h.ends hbare] at hk
    cases hk
  refine ⟨⟨h.closed, hbare⟩, fun hcalls => ?_⟩
  rcases h.constructs hcalls with hc | hc
  · exact hc
  · rw [hbare] at hc
    cases hc

theorem tail?_sound (hr : Sound ts H d r) (he : TailsInvariant ts H cx calls i e p)
    (hd : ts.tokens.size ≤ p + d + 1) :
    Meets ts (tail? r cx calls (ts.nextAt i).span.start e) p fun a j =>
      match a with
      | none => j = p ∧ (startsTail (ts.kindAt p) = false ∨
          calls = false ∧ ts.kindAt p = .punct .lParen)
      | some e' => p < j ∧ TailsInvariant ts H cx calls i e' j := by
  unfold tail?
  refine .peekKind ?_
  split
  · rename_i hk
    obtain ⟨hobject, hconstructs⟩ := he.isObject (by rw [hk]; rfl)
    exact .advanceAt hk fun _ h₁ _ => .here (.anyName fun _ hname h₂ _ => .spanFrom fun _ hsp' =>
      .spanFrom fun _ hsp => .pure ⟨by omega, .dot he.spelled hobject h₁ hname rfl h₂ hsp' hsp, rfl,
        by simp [isNewBare], fun hcalls => .inl (hconstructs hcalls)⟩)
  · rename_i hk
    obtain ⟨hobject, hconstructs⟩ := he.isObject (by rw [hk]; rfl)
    exact .advanceAt hk fun _ h₁ _ => (expression_sound hr (by omega)).next fun _ _ _ hproperty =>
      .expectMark fun _ h₃ _ => .spanFrom fun _ hsp => .pure ⟨by omega,
        .index he.spelled hobject h₁ hproperty.1 h₃ hsp, rfl, by simp [isNewBare],
        fun hcalls => .inl (hconstructs hcalls)⟩
  · rename_i hk
    cases calls with
    | false => exact .no (.pure ⟨rfl, .inr ⟨rfl, hk⟩⟩)
    | true =>
      obtain ⟨hobject, _⟩ := he.isObject (by rw [hk]; rfl)
      refine .yes ((arguments_sound hr hd).next ?_)
      rintro args j _ ⟨hlt, i₁, hopen, hargs⟩
      exact .spanFrom fun _ hsp =>
        .pure ⟨hlt, .call he.spelled hobject hopen hargs hsp, rfl, by simp [isNewBare], by simp⟩
  · rename_i hk
    obtain ⟨hobject, hconstructs⟩ := he.isObject (by rw [hk]; rfl)
    exact (template_sound hr hk hd).next fun _ _ _ hraw => .spanFrom fun _ hsp =>
      .pure ⟨hraw.lt rfl, .tagged he.spelled hobject hraw hsp, rfl, by simp [isNewBare],
        fun hcalls => .inl (hconstructs hcalls)⟩
  · rename_i hdot hbracket hparen hquote
    refine .pure ⟨rfl, .inl ?_⟩
    unfold startsTail
    split <;> simp_all

theorem tails_sound (hr : Sound ts H d r) (he : TailsInvariant ts H cx calls i e p)
    (hd : ts.tokens.size ≤ p + d + 1) :
    Meets ts (tails r cx calls e) p fun e' j => TailsInvariant ts H cx calls i e' j ∧
      (startsTail (ts.kindAt j) = false ∨ calls = false ∧ ts.kindAt j = .punct .lParen) := by
  have hloop : ∀ n e q, TailsInvariant ts H cx calls i e q → p ≤ q → ts.tokens.size ≤ q + n →
      Meets ts (tailsLoop r cx calls (ts.nextAt i).span.start e n) q fun e' j =>
        TailsInvariant ts H cx calls i e' j ∧ (startsTail (ts.kindAt j) = false ∨
          calls = false ∧ ts.kindAt j = .punct .lParen) := by
    intro n
    induction n with
    | zero => exact fun _ _ _ _ => .beyond
    | succ n ih =>
      intro e q he hle hn
      refine (tail?_sound hr he (by omega)).next fun a j _ h => ?_
      cases a with
      | none =>
        obtain ⟨rfl, hends⟩ := h
        exact .pure ⟨he, hends⟩
      | some e' => exact ih e' j h.2 (by omega) (by omega)
  unfold tails
  rw [(he.spelled.spans_of_closed he.closed).start]
  exact hloop _ e p he (Nat.le_refl p) (by omega)

end

omit [ts.Ended] in
theorem Constructed.invariant {j : Nat} (h : Constructed ts H cx i e j) :
    TailsInvariant ts H cx calls i e j := by
  obtain ⟨he, hclosed, hconstructs⟩ := h
  refine ⟨he, hclosed, fun hbare => ?_, fun _ => hconstructs.imp id And.left⟩
  rcases hconstructs with hc | hc
  · cases e <;> simp_all [constructs, isNewBare]
  · exact hc.2

section
variable (hr : Sound ts H d r)
include hr

theorem construct_sound (hd : ts.tokens.size ≤ i + d + 1) :
    Meets ts (construct r cx) i (Constructed ts H cx i) := by
  unfold construct
  refine .here (.expectKeyword fun i₁ h₁ _ => ?_)
  have hrest : ∀ callee i₂, i₁ ≤ i₂ → Constructed ts H cx i₁ callee i₂ → Meets ts (do
      let callee ← tails r cx false callee
      if ← atMark .lParen then
        let args ← arguments r cx
        return Expr.new (← spanFrom (ts.nextAt i).span.start) callee args
      else
        return Expr.newBare (← spanFrom (ts.nextAt i).span.start) callee) i₂
      (Constructed ts H cx i) := by
    intro callee i₂ hle hcallee
    refine (tails_sound hr hcallee.invariant (by omega)).next ?_
    rintro callee i₃ _ ⟨hcallee, hends⟩
    refine .ifAt (fun hparen => ?_) fun hparen => ?_
    · obtain ⟨_, hconstructs⟩ := hcallee.isObject (by rw [hparen]; rfl)
      refine (arguments_sound hr (by omega)).next ?_
      rintro args j _ ⟨_, i₁, hopen, hargs⟩
      exact .spanFrom fun _ hsp =>
        .pure ⟨.new h₁ hcallee.spelled (hconstructs rfl) hopen hargs hsp, rfl, .inl rfl⟩
    · have hends := hends.resolve_right fun h => hparen h.2
      exact .spanFrom fun _ hsp =>
        .pure ⟨.newBare h₁ hcallee.spelled (hcallee.constructs rfl) hends hsp, rfl,
          .inr ⟨rfl, hends⟩⟩
  refine .ifAt (fun _ => (hr.construct (by omega)).next hrest) fun _ =>
    (primary_sound hr (by omega)).next fun callee i₂ hle hcallee => hrest callee i₂ hle ?_
  obtain ⟨hobject, hconstructs⟩ := IsObject.of_isPrimary hcallee.2
  exact ⟨hcallee.1, hobject.1, .inl hconstructs⟩

theorem operand_sound (hd : ts.tokens.size ≤ i + d + 1) :
    Meets ts (operand r cx) i (Operated ts H cx i) := by
  unfold operand
  have hrest : ∀ callee i₁, i ≤ i₁ → Constructed ts H cx i callee i₁ →
      Meets ts (tails r cx true callee) i₁ (Operated ts H cx i) := by
    intro callee i₁ hle hcallee
    refine (tails_sound hr hcallee.invariant (by omega)).mono ?_
    rintro e j _ ⟨he, hends⟩
    exact ⟨he.spelled, he.closed, hends.resolve_right nofun⟩
  refine .ifAt (fun _ => (construct_sound hr hd).next hrest) fun _ =>
    (primary_sound hr hd).next fun callee i₁ hle hcallee => hrest callee i₁ hle ?_
  obtain ⟨hobject, hconstructs⟩ := IsObject.of_isPrimary hcallee.2
  exact ⟨hcallee.1, hobject.1, .inl hconstructs⟩

omit hr in
theorem ne_end_of_some {α : Type} {f : Token.Kind → Option α} {k : Token.Kind} {op : α}
    (hf : f .endOfInput = none) (hop : f k = some op) : k ≠ .endOfInput := by
  rintro rfl
  rw [hf] at hop
  cases hop

theorem updated_sound (hd : ts.tokens.size ≤ i + d + 1) :
    Meets ts (updated r cx) i (Signed ts H cx i) := by
  unfold updated
  refine .here ((operand_sound hr hd).next ?_)
  rintro e i₁ _ ⟨he, hclosed, hends⟩
  have hsigned : UpdateOp.ofKind? (ts.kindAt i₁) = none ∨ ts.breaksAt i₁ = true →
      Signed ts H cx i e i₁ := fun hno =>
    ⟨he, by rw [hclosed]; decide, (operandStops_of_closed hclosed).mpr ⟨hends, hno⟩⟩
  refine .peekKind ?_
  split
  · rename_i hno
    exact .pure (hsigned (.inl hno))
  · rename_i op hop
    refine .newlineBefore (.ite (fun hbreak => .pure (hsigned (.inr hbreak))) fun hbreak => ?_)
    refine .advance (ne_end_of_some rfl hop) fun _ => .spanFrom fun _ hsp =>
      .pure ⟨?_, ?_, trivial⟩
    · exact .trailing he hclosed (Bool.eq_false_iff.mpr hbreak) ⟨rfl, rfl, trivial⟩ hop hsp
    · change Level.unary ≤ Level.updated
      decide

theorem unary_sound (hd : ts.tokens.size ≤ i + d + 1) :
    Meets ts (unary r cx) i (Signed ts H cx i) := by
  unfold unary
  refine .here (.peekKind ?_)
  have hlead : ∀ (f : Span → Expr → Expr), ts.kindAt i ≠ .endOfInput →
      (∀ sp arg i₁ j, ts.placed.Reads (ts.kindAt i) i i₁ → Derives ts.placed H (.expr cx arg) i₁ j →
        Level.unary ≤ arg.level → ts.Spans i j sp →
        Derives ts.placed H (.expr cx (f sp arg)) i j) →
      (∀ sp arg, (f sp arg).level = Level.unary) →
      (∀ sp arg j, OperandStops ts j arg → OperandStops ts j (f sp arg)) →
      Meets ts (do
        let _ ← advance
        let arg ← r.unary cx
        return f (← spanFrom (ts.nextAt i).span.start) arg) i (Signed ts H cx i) := by
    intro f hend hspell hlevel hstops
    refine .advance hend fun _ => (hr.unary (by omega)).next ?_
    rintro arg j _ ⟨harg, hargLevel, hargStops⟩
    exact .spanFrom fun sp hsp => .pure ⟨hspell sp arg _ j ⟨rfl, rfl, trivial⟩ harg hargLevel hsp,
      Nat.le_of_eq (hlevel sp arg).symm, hstops sp arg j hargStops⟩
  split
  · rename_i op hop
    exact hlead (.unary · op) (ne_end_of_some rfl hop) (fun _ _ _ _ h => .unary h hop)
      (fun _ _ => rfl) fun _ _ _ h => h
  · split
    · rename_i op hop
      exact hlead (.update · op true) (ne_end_of_some rfl hop) (fun _ _ _ _ h => .leading h hop)
        (fun _ _ => rfl) fun _ _ _ h => h
    · refine .ite (fun hawait => ?_) fun _ => updated_sound hr hd
      refine hlead .await (readable hawait.1) (fun _ _ _ _ h => ?_) (fun _ _ => rfl) fun _ _ _ h => h
      rw [hawait.1] at h
      exact .await h hawait.2

end

/-!
# Grouping infix operators

Operators wait for their right sides.  What waits is spelled up to where the next
right side starts.
-/

inductive Joined (rd : Reading) (H : Ending) (cx : Context) : List (BinaryOp × Expr) → Nat → Nat → Prop
  | nil {i : Nat} : Joined rd H cx [] i i
  | cons {k : Token.Kind} {op : BinaryOp} {e : Expr} {rest : List (BinaryOp × Expr)}
      {i i₁ i₂ j : Nat} : rd.Reads k i i₁ → infixOp? cx.noIn k = some op →
      Derives rd H (.expr cx e) i₁ i₂ → Level.unary ≤ e.level → Joined rd H cx rest i₂ j →
      Joined rd H cx ((op, e) :: rest) i j

/-- The last waiting operator takes an expression of a level as its right
side. -/
def Accepts : Pending → Nat → Prop
  | [], _ => True
  | (_, op) :: _, level => op.rightLevel ≤ level

/-- Operations that wait for the right side that starts where they end. -/
inductive Stacked (ts : Reading) (H : Ending) (cx : Context) : Pending → Nat → Nat → Prop
  | nil {i : Nat} : Stacked ts H cx [] i i
  | cons {waiting : Pending} {left : Expr} {k : Token.Kind} {op : BinaryOp} {i i₁ i₂ j : Nat} :
      Stacked ts H cx waiting i i₁ → Derives ts.placed H (.expr cx left) i₁ i₂ →
      op.leftLevel ≤ left.level → ts.placed.Reads k i₂ j → infixOp? cx.noIn k = some op →
      Accepts waiting op.level →
      Stacked ts H cx ((left, op) :: waiting) i j

theorem BinaryOp.rightAssoc_iff (op : BinaryOp) : op.rightAssoc = true ↔ op.level = 15 := by
  cases op <;> decide

theorem leftLevel_le_of_yieldsTo {waiting next : BinaryOp} (h : yieldsTo waiting next = true) :
    next.leftLevel ≤ waiting.level := by
  have hnext := BinaryOp.rightAssoc_iff next
  have hbounds := BinaryOp.level_bounds waiting
  simp only [yieldsTo, Bool.or_eq_true, Bool.and_eq_true, decide_eq_true_eq,
    Bool.not_eq_true'] at h
  unfold BinaryOp.leftLevel
  split <;> rename_i hright
  · rcases h with h | ⟨_, h⟩
    · omega
    · rw [hright] at h
      cases h
  · omega

theorem rightLevel_le_of_not_yieldsTo {waiting next : BinaryOp}
    (h : yieldsTo waiting next = false) : waiting.rightLevel ≤ next.level := by
  have hnext := BinaryOp.rightAssoc_iff next
  have hwaiting := BinaryOp.rightAssoc_iff waiting
  simp only [yieldsTo, Bool.or_eq_false_iff, Bool.and_eq_false_iff, decide_eq_false_iff_not,
    Bool.not_eq_false'] at h
  unfold BinaryOp.rightLevel
  split <;> rename_i hright
  · omega
  · rw [hnext] at h
    rw [hwaiting] at hright
    omega

section
omit [ts.Ended]
variable {waiting : Pending} {last : Expr} {p j : Nat}

theorem Stacked.operation {left : Expr} {op : BinaryOp}
    (hstack : Stacked ts H cx ((left, op) :: waiting) i p)
    (hlast : Derives ts.placed H (.expr cx last) p j)
    (haccepts : Accepts ((left, op) :: waiting) last.level) :
    ∃ q, Stacked ts H cx waiting i q ∧ Derives ts.placed H (.expr cx (operation left op last)) q j ∧
      Accepts waiting op.level := by
  cases hstack with
  | cons hwaiting hleft hlevel hread hop haccepts' =>
    exact ⟨_, hwaiting, .binary hleft hlevel hread hop hlast haccepts rfl, haccepts'⟩

theorem finish_spells (hstack : Stacked ts H cx waiting i p)
    (hlast : Derives ts.placed H (.expr cx last) p j) (haccepts : Accepts waiting last.level) :
    Derives ts.placed H (.expr cx (finish waiting last)) i j := by
  induction waiting generalizing last p with
  | nil =>
    cases hstack
    exact hlast
  | cons entry waiting ih =>
    obtain ⟨q, hwaiting, hoperation, haccepts'⟩ := hstack.operation hlast haccepts
    exact ih hwaiting hoperation haccepts'

theorem settle_spells {next : BinaryOp} (hstack : Stacked ts H cx waiting i p)
    (hlast : Derives ts.placed H (.expr cx last) p j) (haccepts : Accepts waiting last.level)
    (hnext : next.leftLevel ≤ last.level) :
    ∃ q, Stacked ts H cx (settle next waiting last).1 i q ∧
      Derives ts.placed H (.expr cx (settle next waiting last).2) q j ∧
      next.leftLevel ≤ (settle next waiting last).2.level ∧
      Accepts (settle next waiting last).1 next.level := by
  induction waiting generalizing last p with
  | nil =>
    exact ⟨p, hstack, hlast, hnext, trivial⟩
  | cons entry waiting ih =>
    obtain ⟨left, op⟩ := entry
    unfold settle
    cases hyields : yieldsTo op next with
    | true =>
      rw [if_pos rfl]
      obtain ⟨q, hwaiting, hoperation, haccepts'⟩ := hstack.operation hlast haccepts
      exact ih hwaiting hoperation haccepts' (leftLevel_le_of_yieldsTo hyields)
    | false =>
      rw [if_neg nofun]
      exact ⟨p, hstack, hlast, hnext, rightLevel_le_of_not_yieldsTo hyields⟩

theorem leftLevel_le_unary (op : BinaryOp) : op.leftLevel ≤ Level.unary := by
  cases op <;> decide

theorem rightLevel_le_unary (op : BinaryOp) : op.rightLevel ≤ Level.unary := by
  cases op <;> decide

theorem Accepts.of_unary (h : Level.unary ≤ last.level) : Accepts waiting last.level := by
  cases waiting with
  | nil => exact trivial
  | cons entry waiting => exact Nat.le_trans (rightLevel_le_unary entry.2) h

theorem groupFrom_spells {q : Nat} (hstack : Stacked ts H cx waiting i p)
    (hlast : Derives ts.placed H (.expr cx last) p q) (hlevel : Level.unary ≤ last.level)
    (hrest : Joined ts.placed H cx rest q j) :
    Derives ts.placed H (.expr cx (groupFrom waiting last rest)) i j := by
  induction rest generalizing waiting last p q with
  | nil =>
    cases hrest
    exact finish_spells hstack hlast (.of_unary hlevel)
  | cons entry rest ih =>
    cases hrest with
    | cons hread hop he helevel hrest =>
      obtain ⟨p', hstack', hlast', hnext, haccepts⟩ := settle_spells hstack hlast
        (.of_unary hlevel) (Nat.le_trans (leftLevel_le_unary _) hlevel)
      exact ih (.cons hstack' hlast' hnext hread hop haccepts) he helevel hrest

theorem finish_level (h : Level.conditional < last.level) :
    Level.conditional < (finish waiting last).level := by
  induction waiting generalizing last with
  | nil => exact h
  | cons entry waiting ih => exact ih (BinaryOp.level_bounds entry.2).1

theorem groupFrom_level (h : Level.conditional < last.level)
    (hrest : ∀ entry ∈ rest, Level.conditional < entry.2.level) :
    Level.conditional < (groupFrom waiting last rest).level := by
  induction rest generalizing waiting last with
  | nil => exact finish_level h
  | cons entry rest ih =>
    exact ih (hrest entry (List.mem_cons_self ..))
      fun e he => hrest e (List.mem_cons_of_mem _ he)

theorem finish_stops : OperandStops ts j (finish waiting last) ↔ OperandStops ts j last := by
  induction waiting generalizing last with
  | nil => exact Iff.rfl
  | cons entry waiting ih => exact ih

theorem groupFrom_stops :
    OperandStops ts j (groupFrom waiting last rest) ↔
      OperandStops ts j ((rest.getLast?.map Prod.snd).getD last) := by
  induction rest generalizing waiting last with
  | nil => exact finish_stops
  | cons entry rest ih =>
    refine ih.trans ?_
    cases rest with
    | nil => exact Iff.rfl
    | cons entry' rest =>
      rw [List.getLast?_cons_cons]
      cases hlast : (entry' :: rest).getLast? with
      | none => simp at hlast
      | some e => exact Iff.rfl

end

def Joins (ts : Reading) (H : Ending) (cx : Context) (i : Nat) (e : Expr) (j : Nat) : Prop :=
  Derives ts.placed H (.expr cx e) i j ∧ Level.conditional < e.level ∧ OperandStops ts j e ∧
    infixOp? cx.noIn (ts.kindAt j) = none

theorem operands_sound {i₁ : Nat} {first : Expr} (hr : Sound ts H d r)
    (hd : ts.tokens.size ≤ i₁ + d + 1) (hstops : OperandStops ts i₁ first) : Meets ts (collect do
    match binaryOp? cx (← peekKind) with
    | none => return none
    | some op =>
        let _ ← advance
        return some (op, ← unary r cx)) i₁ fun rest j =>
      Joined ts.placed H cx rest i₁ j ∧ (∀ entry ∈ rest, Level.conditional < entry.2.level) ∧
        OperandStops ts j ((rest.getLast?.map Prod.snd).getD first) ∧
        infixOp? cx.noIn (ts.kindAt j) = none := by
  -- The operands read so far, the last of which does not go on.
  refine .collect (fun done j =>
    (∀ more k, Joined ts.placed H cx more j k →
      Joined ts.placed H cx (done.reverse ++ more) i₁ k) ∧
    (∀ entry ∈ done, Level.conditional < entry.2.level) ∧
    OperandStops ts j ((done.head?.map Prod.snd).getD first)) ⟨fun _ _ h => h, by simp, hstops⟩ ?_
  rintro done j hle' ⟨hmore, hlevels, hlast⟩
  refine .peekKind ?_
  cases hop : binaryOp? cx (ts.kindAt j) with
  | none =>
    have hjoined := hmore [] _ .nil
    rw [List.append_nil] at hjoined
    refine .pure ⟨hjoined, fun entry hentry => hlevels entry (List.mem_reverse.mp hentry),
      ?_, hop⟩
    rw [List.getLast?_reverse]
    exact hlast
  | some op =>
    refine .advance (ne_end_of_some rfl hop) fun _ => (unary_sound hr (by omega)).next ?_
    rintro e k _ ⟨he, helevel, hestops⟩
    refine .pure ⟨by omega, fun more l hjoined => ?_, fun entry hentry => ?_, hestops⟩
    · rw [List.reverse_cons, List.append_assoc]
      exact hmore _ l (.cons ⟨rfl, rfl, trivial⟩ hop he helevel hjoined)
    · rcases List.mem_cons.mp hentry with rfl | hentry
      · exact Nat.lt_of_lt_of_le (by decide) helevel
      · exact hlevels entry hentry

theorem binary_sound (hr : Sound ts H d r) (hd : ts.tokens.size ≤ i + d + 1) :
    Meets ts (binary r cx) i (Joins ts H cx i) := by
  unfold binary
  refine (unary_sound hr hd).next ?_
  rintro first i₁ hle ⟨hfirst, hlevel, hstops⟩
  have hopen : Level.conditional < first.level := Nat.lt_of_lt_of_le (by decide) hlevel
  refine (operands_sound hr (by omega) hstops).next ?_
  rintro rest j _ ⟨hjoined, hlevels, hlast, hnone⟩
  exact .pure ⟨groupFrom_spells .nil hfirst hlevel hjoined, groupFrom_level hopen hlevels,
    groupFrom_stops.mpr hlast, hnone⟩

/-- An expression without assignments ends at `j` unless it is assigned to. -/
def Conditioned (ts : Reading) (H : Ending) (cx : Context) (i : Nat) (e : Expr) (j : Nat) : Prop :=
  Derives ts.placed H (.expr cx e) i j ∧ Level.conditional ≤ e.level ∧
    (AssignOp.ofKind? (ts.kindAt j) = none → Settles ts H cx.noIn j e)

section
variable (hr : Sound ts H d r)
include hr

omit [ts.Ended] in
/-- Expressions that end with another one settle where that one ends. -/
theorem Sound.settles {noIn : Bool} {j : Nat} {value : Expr} (hlast : lastValue e = some value)
    (hstops : Stops ts noIn j e ↔ Stops ts noIn j value) (hends : H noIn j value) :
    Settles ts H noIn j e :=
  ⟨hstops.mpr (hr.stops hends), fun _ h => Option.some.inj (hlast ▸ h) ▸ hends⟩

theorem conditional_sound (hd : ts.tokens.size ≤ i + d + 1) :
    Meets ts (conditional r cx) i (Conditioned ts H cx i) := by
  unfold conditional
  refine .here ((binary_sound hr hd).next ?_)
  rintro test i₁ hle ⟨htest, hlevel, hstops, hnone⟩
  refine .ifEat (fun _ hmark _ => (hr.assignment (by omega)).next fun yes _ _ hyes =>
    .expectMark fun _ hcolon _ => (hr.assignment (by omega)).next ?_) fun hmark => .pure ?_
  · rintro no j _ ⟨hno, hnoLevel, hnoEnds⟩
    refine .spanFrom fun _ hsp => .pure ⟨?_, Nat.le_refl _, fun hassign => ?_⟩
    · exact .conditional htest hlevel hmark hyes.1 hyes.2.1 hcolon hno hnoLevel hsp
    · exact ⟨⟨hr.stops hnoEnds, hassign⟩, fun _ hlast => Option.some.inj hlast ▸ hnoEnds⟩
  · refine ⟨htest, Nat.le_of_lt hlevel, fun hassign => ⟨?_, ?_⟩⟩
    · exact (stops_of_lt_level hlevel).mpr ⟨hstops, hnone, hmark, hassign⟩
    · rw [lastValue_of_lt_level hlevel]
      exact nofun

theorem yieldExpr_sound (hgen : cx.inGenerator = true) (hd : ts.tokens.size ≤ i + d + 1) :
    Meets ts (yieldExpr r cx) i (Assigned ts H (Settles ts H) cx i) := by
  unfold yieldExpr
  refine .here (.expectKeyword fun i₁ hword _ => ?_)
  have harg : ∀ (delegate : Bool) i₂, i₁ ≤ i₂ →
      (∀ sp arg j, Derives ts.placed H (.expr cx arg) i₂ j → Level.assignment ≤ arg.level →
        ts.Spans i j sp → Derives ts.placed H (.expr cx (.yield sp delegate (some arg))) i j) →
      Meets ts (do
        let arg ← some <$> r.assignment cx
        return .yield (← spanFrom (ts.nextAt i).span.start) delegate arg) i₂
        (Assigned ts H (Settles ts H) cx i) := by
    intro delegate i₂ hle hspell
    refine .bind (.map ((hr.assignment (by omega)).mono ?_))
    rintro arg j _ ⟨harg, hlevel, hends⟩
    exact .spanFrom fun sp hsp =>
      .pure ⟨hspell sp arg j harg hlevel hsp, Nat.le_refl _, hr.settles rfl .rfl hends⟩
  have hnothing : ts.breaksAt i₁ = true ∨ endsYield (ts.kindAt i₁) = true →
      Meets ts (do return .yield (← spanFrom (ts.nextAt i).span.start) false none) i₁
        (Assigned ts H (Settles ts H) cx i) :=
    fun h => .spanFrom fun _ hsp =>
      .pure ⟨.yieldNothing hword hgen h hsp, Nat.le_refl _, trivial, nofun⟩
  refine .newlineBefore (.ite (fun hbreak => ?_) fun hbreak => ?_)
  · refine .bind (.pure (.newlineBefore (.no (.ite (fun _ => ?_) fun h => absurd hbreak h))))
    exact .bind (.pure (.yes (.bind (.pure (hnothing (.inl hbreak))))))
  · have hline := Bool.eq_false_iff.mpr hbreak
    refine .eat (fun i₂ hstar hlt => ?_) fun hstar => ?_
    · refine .newlineBefore (.yes (.bind (.pure (.no ?_))))
      exact harg true i₂ (by omega) fun _ _ _ => .delegate hword hgen hline hstar
    · refine .newlineBefore (.no (.ite (fun h => absurd h hbreak) fun _ => ?_))
      refine .peekKind (.bind (.pure ?_))
      cases hends : endsYield (ts.kindAt i₁) with
      | true => exact .yes (.bind (.pure (hnothing (.inr hends))))
      | false =>
        exact .no (harg false i₁ (Nat.le_refl i₁) fun _ _ _ => .yieldValue hword hgen hline)

omit hr [ts.Ended] in
theorem Runs.arrowPossible {α : Type} {E : Failure → Prop} {f : Bool → Parser α}
    {Q : α → Nat → Prop} (h : ∀ b, Runs ts E (f b) i Q) :
    Runs ts E (Grammar.arrowPossible >>= f) i Q := by
  refine .bind (.peekKind ?_)
  split
  · exact .pure (h _)
  · exact .peekSecondKind (.pure (h _))
  · exact .peekSecondKind (.pure (h _))
  · exact .pure (h _)

theorem arrowParams_sound {p : Nat} (hd : ts.tokens.size ≤ p + d + 1)
    (hasync : ts.placed.MayRead (.keyword .kwAsync) isAsync i p) :
    Meets ts (arrowParams r (Context.function isAsync false)) p fun params j =>
      p < j ∧ ∀ k, ts.breaksAt j = false → ts.placed.Reads (.punct .arrow) j k →
        Derives ts.placed H (.arrowHead isAsync params) i k := by
  unfold arrowParams
  refine .ifAt (fun _ => .here (.identifier fun _ h₁ hlt => .spanFrom fun _ hsp => .pure ⟨hlt, ?_⟩))
    fun _ => (params_sound hr hd).mono ?_
  · exact fun _ hline harrow => .arrowName hasync ⟨h₁, rfl⟩ hline harrow hsp hsp
  · rintro ps _ _ ⟨hlt, _, hopen, hps⟩
    exact ⟨hlt, fun _ => .arrowParams hasync hopen hps⟩

def arrowRest (r : Rules) (cx : Context) (start : Nat) (isAsync : Bool) : Parser Expr := do
  let inner := Context.function isAsync false
  let params ← arrowParams r inner
  if ← newlineBefore then unexpected
  expectMark .arrow
  if ← atMark .lBrace then
    let body ← block r inner
    return .arrowBlock (← spanFrom start) isAsync params body
  else
    let body ← r.assignment { inner with noIn := cx.noIn }
    return .arrow (← spanFrom start) isAsync params body

theorem arrowFunction_sound (hd : ts.tokens.size ≤ i + d + 1) :
    Meets ts (arrowFunction r cx) i (Assigned ts H (Settles ts H) cx i) := by
  unfold arrowFunction
  refine .here ?_
  have hrest : ∀ isAsync i₁, i ≤ i₁ → ts.placed.MayRead (.keyword .kwAsync) isAsync i i₁ →
      Meets ts (arrowRest r cx (ts.nextAt i).span.start isAsync) i₁
        (Assigned ts H (Settles ts H) cx i) := by
    intro isAsync i₁ hle hasync
    refine (arrowParams_sound hr (by omega) hasync).next ?_
    rintro params i₂ _ ⟨hlt, hhead⟩
    refine .newlineBefore (.ite (fun _ => .bind .unexpected) fun hline => ?_)
    refine .expectMark fun i₃ harrow _ => ?_
    have hhead := hhead _ (Bool.eq_false_iff.mpr hline) harrow
    refine .ifAt (fun _ => ?_) fun hbrace => ?_
    · exact (block_sound hr (by omega)).next fun _ _ _ hbody => .spanFrom fun _ hsp =>
        .pure ⟨.arrowBlock hhead hbody hsp, Nat.le_refl _, trivial, nofun⟩
    · have hinner : Meets ts (r.assignment (Context.arrow isAsync cx.noIn)) i₃ _ :=
        hr.assignment (by omega)
      refine hinner.next ?_
      rintro body j _ ⟨hbody, hlevel, hends⟩
      exact .spanFrom fun _ hsp => .pure ⟨.arrow hhead hbrace hbody hlevel hsp, Nat.le_refl _,
        hr.settles rfl .rfl hends⟩
  exact .eat (fun i₁ h₁ hlt => hrest true i₁ (by omega) (.yes h₁))
    fun hno => hrest false i (Nat.le_refl i) (.no hno)

theorem patternAssignment_sound {k : Punctuator} (hk : ts.kindAt i = .punct k)
    (hd : ts.tokens.size ≤ i + d + 1) :
    Meets ts (patternAssignment r cx) i (Assigned ts H (Settles ts H) cx i) := by
  refine .here ((pattern_sound hr hd).next fun target _ _ htarget => .expectMark fun _ heq _ =>
    (hr.assignment (by omega)).next ?_)
  rintro value j _ ⟨hvalue, hlevel, hends⟩
  exact .spanFrom fun _ hsp => .pure ⟨.assignPattern htarget hk heq hvalue hlevel hsp,
    Nat.le_refl _, hr.settles rfl .rfl hends⟩

section
variable (hd : ts.tokens.size ≤ i + d + 1)
include hd

theorem plainAssignment_sound :
    Meets ts (plainAssignment r cx) i (Assigned ts H (Settles ts H) cx i) := by
  unfold plainAssignment
  refine .here ((conditional_sound hr hd).next ?_)
  rintro target i₁ _ ⟨htarget, hlevel, hstops⟩
  refine .peekKind ?_
  cases hop : AssignOp.ofKind? (ts.kindAt i₁) with
  | none => exact .pure ⟨htarget, Nat.le_of_succ_le hlevel, hstops hop⟩
  | some op =>
    refine .ite (fun _ => .bind .unexpected) fun hassignable => ?_
    refine .advance (ne_end_of_some rfl hop) fun _ => (hr.assignment (by omega)).next ?_
    rintro value j _ ⟨hvalue, hvalueLevel, hends⟩
    exact .spanFrom fun _ hsp => .pure ⟨.assign htarget (by simpa using hassignable)
      ⟨rfl, rfl, trivial⟩ hop hvalue hvalueLevel hsp, Nat.le_refl _, hr.settles rfl .rfl hends⟩

theorem patternOrPlain_sound : Meets ts (do
    let assigned ←
      if ts.kindAt i = .punct .lBrace ∨ ts.kindAt i = .punct .lBracket then
        speculate .patternAssignment cx (patternAssignment r cx)
      else
        pure none
    match assigned with
    | some e => return e
    | none => plainAssignment r cx) i (Assigned ts H (Settles ts H) cx i) := by
  have hplain : Meets ts (plainAssignment r cx) i _ := plainAssignment_sound hr hd
  refine .ite (fun hk => ?_) fun _ => .bind (.pure hplain)
  obtain ⟨k, hk⟩ : ∃ k, ts.kindAt i = .punct k := hk.elim (⟨_, ·⟩) (⟨_, ·⟩)
  exact .bind (.speculate ((patternAssignment_sound hr hk hd).mono fun _ _ _ => .pure) hplain)

theorem assignment_sound : Meets ts (assignment r cx) i (Assigned ts H (Settles ts H) cx i) := by
  unfold assignment
  refine .peekKind (.ite (fun hyield => yieldExpr_sound hr hyield.2 hd) fun _ => ?_)
  have hpattern : Meets ts _ i (Assigned ts H (Settles ts H) cx i) := patternOrPlain_sound hr hd
  refine .arrowPossible fun possible => .ite (fun _ => ?_) fun _ => .bind (.pure hpattern)
  exact .bind (.speculate ((arrowFunction_sound hr hd).mono fun _ _ _ => .pure) hpattern)

end

end

end Grammar
end ScriptBundler
