import ScriptBundler.Proofs.StatementSoundness

/-!
# How phrases start

A parser decides by the next token or two what to read.  Here are the tokens a
phrase can start with, and the operand an expression starts with: the rest of
the expression is put behind that operand piece by piece, and the token behind
it already tells that the expression goes on.
-/

namespace ScriptBundler
namespace Grammar

open Grammar.Parser

def startsOperand : Token.Kind → Bool
  | .identifier | .number | .stringQuote | .templateQuote
  | .punct .lBrace | .punct .lBracket | .punct .lParen | .punct .slash | .punct .slashEq
  | .keyword .kwNew | .keyword .kwClass | .keyword .kwFunction | .keyword .kwAsync
  | .keyword .kwTrue | .keyword .kwFalse | .keyword .kwNull
  | .keyword .kwThis | .keyword .kwSuper => true
  | _ => false

def startsExpr (k : Token.Kind) : Bool :=
  startsOperand k || (UnaryOp.ofKind? k).isSome || (UpdateOp.ofKind? k).isSome ||
    decide (k = .keyword .kwAwait) || decide (k = .keyword .kwYield)

def startsBinding : Token.Kind → Bool
  | .identifier | .keyword .kwAsync | .punct .lBracket | .punct .lBrace => true
  | _ => false

def startsKey (k : Token.Kind) : Bool :=
  k.isName || decide (k = .stringQuote) || decide (k = .number) || decide (k = .punct .lBracket)

def startsItem : ItemClass → Token.Kind → Bool
  | _, .punct .spread => true
  | .arg, k | .element, k => startsExpr k
  | .property, k => startsKey k || decide (k = .punct .star)
  | .objectElement, k => startsKey k
  | .param, k | .arrayElement, k => startsBinding k
  | .importName, k | .exportName, k => k.isName

def Phrase.opens : Phrase → Token.Kind → Bool
  | .expr _ _, k => startsExpr k
  | .item _ c _, k => startsItem c k
  | .key _ _, k => startsKey k
  | .binding _ _, k | .decl _ _, k => startsBinding k
  | .template _ _, k => decide (k = .templateQuote)
  | .func _, k => decide (k = .keyword .kwFunction) || decide (k = .keyword .kwAsync)
  | .funcRest _, k => decide (k = .keyword .kwFunction)
  | .callable _ _ _, k => decide (k = .punct .lParen)
  | .arrowHead _ _, k => namesVariable k || decide (k = .punct .lParen)
  | .classRest _ _ _ _, k => decide (k = .keyword .kwClass)
  | .member _ _, k => startsKey k || decide (k = .punct .star)
  | .block _ _, k => decide (k = .punct .lBrace)
  | .importList _, k => decide (k = .punct .star) || decide (k = .punct .lBrace)
  | _, _ => true

section
variable {rd : Reading} {i j : Nat}

theorem Reading.RegexAt.kindAt_eq {pattern flags : String} (h : rd.RegexAt pattern flags i j) :
    rd.kindAt i = .punct .slash ∨ rd.kindAt i = .punct .slashEq := by
  cases h with
  | slash h => exact .inl h
  | slashEq h => exact .inr h

theorem Reading.MethodStartAt.opens {m : MethodStart} (h : rd.MethodStartAt m i j) :
    i = j ∨ startsKey (rd.kindAt i) = true ∨ rd.kindAt i = .punct .star := by
  cases h with
  | named _ h | plain _ _ h =>
    cases h with
    | yes h => exact .inr (.inr h.1)
    | no => exact .inl rfl
  | get _ h | set _ h => exact .inr (.inl (by rw [h.1.1]; rfl))
  | async _ h => exact .inr (.inl (by rw [h.1]; rfl))

theorem Reading.StaticAt.opens {b : Bool} (h : rd.StaticAt b i j) :
    i = j ∨ startsKey (rd.kindAt i) = true := by
  cases h with
  | yes h => exact .inr (by rw [h.1]; rfl)
  | no => exact .inl rfl

theorem Reading.MayRead.opens {k : Token.Kind} {b : Bool} (h : rd.MayRead k b i j) :
    i = j ∨ rd.kindAt i = k := by
  cases h with
  | yes h => exact .inr h.1
  | no => exact .inl rfl

theorem startsBinding_of_namesVariable {k : Token.Kind} (h : namesVariable k = true) :
    startsBinding k = true := by
  unfold namesVariable at h
  rw [Bool.or_eq_true, decide_eq_true_eq, decide_eq_true_eq] at h
  rcases h with rfl | rfl <;> rfl

theorem startsExpr_of_startsBinding {k : Token.Kind} (h : startsBinding k = true) :
    startsExpr k = true := by
  unfold startsBinding at h
  split at h
  all_goals first | rfl | cases h

theorem startsExpr_of_startsOperand {k : Token.Kind} (h : startsOperand k = true) :
    startsExpr k = true := by
  unfold startsExpr
  rw [h]
  rfl

theorem Derives.opens {H : Ending} {ph : Phrase} (h : Derives rd H ph i j) :
    ph.opens (rd.kindAt i) = true := by
  induction h <;> simp only [Phrase.opens] at * <;>
    grind -linarith [namesVariable, startsExpr, startsKey, startsItem, startsOperand, startsBinding,
      Reading.Reads, Reading.ReadsWord, Reading.StringAt, Reading.RegexAt, Token.Kind.isName,
      → Reading.MethodStartAt.opens, → Reading.StaticAt.opens, → Reading.MayRead.opens,
      → startsBinding_of_namesVariable, → startsExpr_of_startsBinding,
      → startsExpr_of_startsOperand]

section
variable {H : Ending} {cx : Context}

theorem Derives.func_kind {f : Func} (h : Derives rd H (.func f) i j) :
    rd.kindAt i = .keyword .kwFunction ∨ rd.kindAt i = .keyword .kwAsync := by
  simpa [Phrase.opens] using h.opens

def startsStatement : Token.Kind → Bool
  | .punct .lBrace | .punct .semicolon => true
  | .keyword word => word ∉ [.kwCase, .kwDefault, .kwElse, .kwFinally]
  | _ => false

theorem Derives.stmt_cases {s : Stmt} (h : Derives rd H (.stmt cx s) i j) :
    (∃ e m, Derives rd H (.expr cx e) i m ∧ SequenceStops rd H cx.noIn m e ∧ rd.Closes m j) ∨
      (rd.kindAt i = .identifier ∧ rd.kindAt (rd.past i) = .punct .colon) ∨
      startsStatement (rd.kindAt i) = true := by
  cases h with
  | exprStmt _ he hstops hclose => exact .inl ⟨_, _, he, hstops, hclose⟩
  | labeled hlabel hcolon => exact .inr (.inl ⟨hlabel.1.1, hlabel.1.2.1 ▸ hcolon.1⟩)
  | vars hread hkind =>
    rw [hread.1]
    unfold VarKind.ofKind? at hkind
    split at hkind
    all_goals first | exact .inr (.inr rfl) | cases hkind
  | blockStmt hblock => exact .inr (.inr (by rw [of_decide_eq_true hblock.opens]; rfl))
  | classDecl _ hclass => exact .inr (.inr (by rw [of_decide_eq_true hclass.opens]; rfl))
  | functionDecl _ hf =>
    rcases hf.func_kind with hk | hk <;> exact .inr (.inr (by rw [hk]; rfl))
  | empty hread | throw hread | switch hread | tryCatch hread | tryFinally hread
  | tryCatchFinally hread | doWhile hread | whileLoop hread | ifElse hread | ifThen hread
  | forIn hread | forOf hread | forLoop hread | ret hread | retNothing hread | breakTo hread
  | breakOut hread | continueTo hread | continueOn hread | debugger hread | importOnly hread
  | importFrom hread | exportDefault hread | exportAll hread | exportNames hread
  | exportFrom hread | exportDecl hread => exact .inr (.inr (by rw [hread.1]; rfl))

end
end

/-!
# The operand an expression starts with

An expression that starts with a token for operands extends the operand that stands
there.
-/

def goesOn (noIn : Bool) (k : Token.Kind) : Bool :=
  startsTail k || (UpdateOp.ofKind? k).isSome || (infixOp? noIn k).isSome ||
    decide (k = .punct .question) || (AssignOp.ofKind? k).isSome

section
variable (rd : Reading) (cx : Context) (x : Expr) (m : Nat)

/-- The expression `e` up to `j` starts with the operand `x` up to `m`. -/
inductive Extends : Expr → Nat → Prop
  | refl : Extends x m
  | dot {sp sp' object name i₁ i₂ j} : Extends object i₁ → IsObject object →
      rd.Reads (.punct .dot) i₁ i₂ → (rd.kindAt i₂).isName = true → rd.textAt i₂ = name →
      rd.Takes i₂ j → Extends (.dot sp object sp' name) j
  | index {sp object property i₁ i₂ i₃ j} : Extends object i₁ → IsObject object →
      rd.Reads (.punct .lBracket) i₁ i₂ → Spells rd (.expr cx.allowIn property) i₂ i₃ →
      rd.Reads (.punct .rBracket) i₃ j → Extends (.index sp object property) j
  | call {sp callee args i₁ i₂ j} : Extends callee i₁ → IsObject callee →
      rd.Reads (.punct .lParen) i₁ i₂ → Spells rd (.items cx.allowIn .arg args) i₂ j →
      Extends (.call sp callee args) j
  | tagged {sp tag raw i₁ j} : Extends tag i₁ → IsObject tag → Spells rd (.template cx raw) i₁ j →
      Extends (.tagged sp tag raw) j
  | trailing {sp k op arg i₁ j} : Extends arg i₁ → arg.level = Level.closed →
      rd.breaksAt i₁ = false → rd.Reads k i₁ j → UpdateOp.ofKind? k = some op →
      Extends (.update sp op false arg) j
  | binary {sp k op left right i₁ i₂ j} : Extends left i₁ → op.leftLevel ≤ left.level →
      rd.Reads k i₁ i₂ → infixOp? cx.noIn k = some op → Spells rd (.expr cx right) i₂ j →
      op.rightLevel ≤ right.level → Extends (.binary sp op left right) j
  | conditional {sp test yes no i₁ i₂ i₃ i₄ j} : Extends test i₁ → Level.conditional < test.level →
      rd.Reads (.punct .question) i₁ i₂ → Spells rd (.expr cx.allowIn yes) i₂ i₃ →
      Level.assignment ≤ yes.level → rd.Reads (.punct .colon) i₃ i₄ → Spells rd (.expr cx no) i₄ j →
      Level.assignment ≤ no.level → Extends (.conditional sp test yes no) j
  | assign {sp k op target value i₁ i₂ j} : Extends target i₁ → target.isAssignable = true →
      rd.Reads k i₁ i₂ → AssignOp.ofKind? k = some op → Spells rd (.expr cx value) i₂ j →
      Level.assignment ≤ value.level → Extends (.assign sp op target value) j

end

def isNew : Expr → Bool
  | .new _ _ _ | .newBare _ _ => true
  | _ => false

/-- Operands that are not put together from left to right. -/
def isBase (e : Expr) : Bool :=
  isPrimary e || isNew e

theorem isPrimary_binary (sp : Span) (op : BinaryOp) (left right : Expr) :
    isPrimary (.binary sp op left right) = false := by
  cases op <;> rfl

theorem isBase_binary (sp : Span) (op : BinaryOp) (left right : Expr) :
    isBase (.binary sp op left right) = false := by
  unfold isBase
  rw [isPrimary_binary]
  rfl

/-- Expressions that start with something other than an operand. -/
inductive StartsOtherwise (rd : Reading) (i : Nat) : Expr → Prop
  | signed {e : Expr} : (UnaryOp.ofKind? (rd.kindAt i)).isSome = true ∨
      (UpdateOp.ofKind? (rd.kindAt i)).isSome = true ∨ rd.kindAt i = .keyword .kwAwait →
      e.level ≠ Level.closed → StartsOtherwise rd i e
  | yield {sp delegate arg} : rd.kindAt i = .keyword .kwYield →
      StartsOtherwise rd i (.yield sp delegate arg)
  | arrow {sp isAsync params body} : StartsOtherwise rd i (.arrow sp isAsync params body)
  | arrowBlock {sp isAsync params body} :
      StartsOtherwise rd i (.arrowBlock sp isAsync params body)
  | assignPattern {sp target value} :
      rd.kindAt i = .punct .lBracket ∨ rd.kindAt i = .punct .lBrace →
      StartsOtherwise rd i (.assignPattern sp target value)
  | sequence {sp items} : StartsOtherwise rd i (.sequence sp items)

section
variable {rd : Reading} {cx : Context} {x e : Expr} {i m j : Nat}

theorem Extends.le [rd.Ended] (h : Extends rd cx x m e j) : m ≤ j := by
  induction h with
  | refl => exact Nat.le_refl m
  | dot _ _ hread _ _ htake ih =>
    have hlt := hread.lt
    have hlt' := htake.lt
    omega
  | index _ _ hopen hproperty hclose ih =>
    have hlt := hopen.lt
    have hle := hproperty.le
    have hlt' := hclose.lt
    omega
  | call _ _ hopen hargs ih =>
    have hlt := hopen.lt
    have hle := hargs.le
    omega
  | tagged _ _ htemplate ih => exact Nat.le_trans ih htemplate.le
  | trailing _ _ _ hread _ ih => exact Nat.le_trans ih (Nat.le_of_lt hread.lt)
  | binary _ _ hread _ hright _ ih | assign _ _ hread _ hright _ ih =>
    have hlt := hread.lt
    have hle := hright.le
    omega
  | conditional _ _ hread hyes _ hcolon hno _ ih =>
    have hlt := hread.lt
    have hle := hyes.le
    have hlt' := hcolon.lt
    have hle' := hno.le
    omega

theorem Extends.goesOn (h : Extends rd cx x m e j) :
    x = e ∧ m = j ∨ goesOn cx.noIn (rd.kindAt m) = true := by
  have hstep : ∀ {e' : Expr} {i₁ : Nat},
      (x = e' ∧ m = i₁ ∨ Grammar.goesOn cx.noIn (rd.kindAt m) = true) →
      Grammar.goesOn cx.noIn (rd.kindAt i₁) = true →
      Grammar.goesOn cx.noIn (rd.kindAt m) = true := by
    rintro e' i₁ (⟨_, rfl⟩ | h) hnext
    · exact hnext
    · exact h
  induction h with
  | refl => exact .inl ⟨rfl, rfl⟩
  | dot _ _ hread _ _ _ ih | index _ _ hread _ _ ih | call _ _ hread _ ih
  | conditional _ _ hread _ _ _ _ _ ih =>
    refine .inr (hstep ih ?_)
    rw [hread.1]
    rfl
  | tagged _ _ htemplate ih =>
    refine .inr (hstep ih ?_)
    have hopens := of_decide_eq_true htemplate.opens
    rw [hopens]
    rfl
  | trailing _ _ _ hread hop ih | binary _ _ hread hop _ _ ih | assign _ _ hread hop _ _ ih =>
    refine .inr (hstep ih ?_)
    rw [hread.1]
    simp only [Grammar.goesOn, hop, Option.isSome_some, Bool.or_true, Bool.true_or]

theorem StartsOtherwise.of_left {left : Expr} (h : StartsOtherwise rd i left)
    (hleft : Level.conditional < left.level ∨ left.isAssignable = true)
    (he : left.level = Level.closed ∨ e.level ≠ Level.closed) : StartsOtherwise rd i e := by
  cases h with
  | signed h hopen =>
    rcases he with he | he
    · exact absurd he hopen
    · exact .signed h he
  | _ =>
    rcases hleft with hleft | hleft
    · exact absurd hleft (by simp only [Expr.level]; decide)
    · cases hleft

theorem Level.conditional_lt_of_closed (h : e.level = Level.closed) :
    Level.conditional < e.level := by
  rw [h]
  decide

theorem Derives.opens_bracket {b : Binding} {mark : Punctuator} (h : Spells rd (.binding cx b) i j)
    (hk : rd.kindAt i = .punct mark) :
    rd.kindAt i = .punct .lBracket ∨ rd.kindAt i = .punct .lBrace := by
  cases h with
  | boundArray hopen => exact .inl hopen.1
  | boundObject hopen => exact .inr hopen.1
  | bound hname =>
    rw [hk] at hname
    cases hname

theorem Derives.lead [rd.Ended] (h : Spells rd (.expr cx e) i j) :
    StartsOtherwise rd i e ∨
      ∃ x m, isBase x = true ∧ Spells rd (.expr cx x) i m ∧ Extends rd cx x m e j := by
  induction j using Nat.strongRecOn generalizing e with
  | ind j ih =>
    -- The left part of the expression is shorter and starts in the same way.
    have hleft : ∀ {left : Expr} {i₁ : Nat}, i₁ < j → Spells rd (.expr cx left) i i₁ →
        Level.conditional < left.level ∨ left.isAssignable = true →
        left.level = Level.closed ∨ e.level ≠ Level.closed →
        (∀ x m, Extends rd cx x m left i₁ → Extends rd cx x m e j) →
        StartsOtherwise rd i e ∨
          ∃ x m, isBase x = true ∧ Spells rd (.expr cx x) i m ∧ Extends rd cx x m e j := by
      intro left i₁ hlt hspells hlevel hclosed hextends
      rcases ih i₁ hlt hspells with hother | ⟨x, m, hbase, hx, hext⟩
      · exact .inl (hother.of_left hlevel hclosed)
      · exact .inr ⟨x, m, hbase, hx, hextends x m hext⟩
    have hself : isBase e = true → StartsOtherwise rd i e ∨
        ∃ x m, isBase x = true ∧ Spells rd (.expr cx x) i m ∧ Extends rd cx x m e j :=
      fun hbase => .inr ⟨e, j, hbase, h, .refl⟩
    cases h with
    | dot hobject hobj hread hname htext htake =>
      have hlt := hread.lt
      have hlt' := htake.lt
      exact hleft (by omega) hobject (.inl (Level.conditional_lt_of_closed hobj.1))
        (.inl hobj.1) fun _ _ hext => .dot hext hobj hread hname htext htake
    | index hobject hobj hopen hproperty hclose =>
      have hlt := hopen.lt
      have hle := hproperty.le
      have hlt' := hclose.lt
      exact hleft (by omega) hobject (.inl (Level.conditional_lt_of_closed hobj.1))
        (.inl hobj.1) fun _ _ hext => .index hext hobj hopen hproperty hclose
    | call hcallee hobj hopen hargs =>
      have hlt := hopen.lt
      have hle := hargs.le
      exact hleft (by omega) hcallee (.inl (Level.conditional_lt_of_closed hobj.1))
        (.inl hobj.1) fun _ _ hext => .call hext hobj hopen hargs
    | tagged htag hobj htemplate =>
      have hlt := htemplate.lt rfl
      exact hleft hlt htag (.inl (Level.conditional_lt_of_closed hobj.1))
        (.inl hobj.1) fun _ _ hext => .tagged hext hobj htemplate
    | trailing harg hclosed hline hread hop =>
      exact hleft hread.lt harg (.inl (Level.conditional_lt_of_closed hclosed))
        (.inl hclosed) fun _ _ hext => .trailing hext hclosed hline hread hop
    | @binary _ sp k op left right _ i₁ i₂ _ hl hlevel hread hop hr hlevel' =>
      have hlt := hread.lt
      have hle := hr.le
      have hbounds := BinaryOp.level_bounds op
      refine hleft (by omega) hl (.inl ?_) (.inr (by change op.level ≠ 255; omega))
        fun _ _ hext => .binary hext hlevel hread hop hr hlevel'
      have hop := BinaryOp.level_le_leftLevel op
      change 4 < left.level
      omega
    | conditional htest hlevel hread hyes hyesLevel hcolon hno hnoLevel =>
      have hlt := hread.lt
      have hle := hyes.le
      have hlt' := hcolon.lt
      have hle' := hno.le
      exact hleft (by omega) htest (.inl hlevel) (.inr nofun)
        fun _ _ hext => .conditional hext hlevel hread hyes hyesLevel hcolon hno hnoLevel
    | assign htarget hassignable hread hop hvalue hlevel =>
      have hlt := hread.lt
      have hle := hvalue.le
      exact hleft (by omega) htarget (.inr hassignable) (.inr nofun)
        fun _ _ hext => .assign hext hassignable hread hop hvalue hlevel
    | unary hread hop => exact .inl (.signed (.inl (by rw [hread.1, hop]; rfl)) nofun)
    | leading hread hop => exact .inl (.signed (.inr (.inl (by rw [hread.1, hop]; rfl))) nofun)
    | await hread => exact .inl (.signed (.inr (.inr hread.1)) nofun)
    | delegate hread | yieldValue hread | yieldNothing hread => exact .inl (.yield hread.1)
    | arrow => exact .inl .arrow
    | arrowBlock => exact .inl .arrowBlock
    | assignPattern htarget hk => exact .inl (.assignPattern (htarget.opens_bracket hk))
    | sequence => exact .inl .sequence
    | _ => exact hself rfl

theorem Derives.lead_closed [rd.Ended] (h : Spells rd (.expr cx e) i j)
    (hclosed : e.level = Level.closed) :
    ∃ x m, isBase x = true ∧ Spells rd (.expr cx x) i m ∧ Extends rd cx x m e j := by
  rcases h.lead with hother | hlead
  · cases hother with
    | signed _ hopen => exact absurd hclosed hopen
    | _ => cases hclosed
  · exact hlead

theorem Derives.startsOperand_of_base (h : Spells rd (.expr cx x) i m) (hbase : isBase x = true) :
    startsOperand (rd.kindAt i) = true := by
  cases h with
  | null hread | trueWord hread | falseWord hread | this hread | super hread | number hread
  | asyncIdent hread | array hread | object hread | paren hread | new hread | newBare hread =>
    rw [hread.1]
    rfl
  | ident hread =>
    rw [hread.1.1]
    rfl
  | string hstring =>
    rw [hstring.1]
    rfl
  | regex hregex => rcases hregex.kindAt_eq with hk | hk <;> rw [hk] <;> rfl
  | quasi htemplate =>
    rw [of_decide_eq_true htemplate.opens]
    rfl
  | function hf =>
    rcases hf.func_kind with hk | hk <;> rw [hk] <;> rfl
  | «class» hclass =>
    rw [of_decide_eq_true hclass.opens]
    rfl
  | binary =>
    rw [isBase_binary] at hbase
    cases hbase
  | _ => cases hbase

theorem Derives.isPrimary_or_isNew (h : Spells rd (.expr cx x) i m) (hbase : isBase x = true) :
    isPrimary x = true ∧ rd.kindAt i ≠ .keyword .kwNew ∨
      isNew x = true ∧ rd.kindAt i = .keyword .kwNew := by
  cases h with
  | new hread | newBare hread => exact .inr ⟨rfl, hread.1⟩
  | null hread | trueWord hread | falseWord hread | this hread | super hread | number hread
  | asyncIdent hread | array hread | object hread | paren hread =>
    exact .inl ⟨rfl, by rw [hread.1]; exact nofun⟩
  | ident hread => exact .inl ⟨rfl, by rw [hread.1.1]; exact nofun⟩
  | string hstring => exact .inl ⟨rfl, by rw [hstring.1]; exact nofun⟩
  | regex hregex =>
    rcases hregex.kindAt_eq with hk | hk <;> exact .inl ⟨rfl, by rw [hk]; exact nofun⟩
  | quasi htemplate =>
    exact .inl ⟨rfl, by rw [of_decide_eq_true htemplate.opens]; exact nofun⟩
  | function hf =>
    exact .inl ⟨rfl, by rcases hf.func_kind with hk | hk <;> rw [hk] <;> exact nofun⟩
  | «class» hclass => exact .inl ⟨rfl, by rw [of_decide_eq_true hclass.opens]; exact nofun⟩
  | binary =>
    rw [isBase_binary] at hbase
    cases hbase
  | _ => cases hbase

theorem Derives.startsOperand_of_closed [rd.Ended] (h : Spells rd (.expr cx e) i j)
    (hclosed : e.level = Level.closed) : startsOperand (rd.kindAt i) = true := by
  obtain ⟨x, m, hbase, hx, _⟩ := h.lead_closed hclosed
  exact hx.startsOperand_of_base hbase

theorem no_sign_of_startsOperand {k : Token.Kind} (h : startsOperand k = true) :
    UnaryOp.ofKind? k = none ∧ UpdateOp.ofKind? k = none ∧ k ≠ .keyword .kwAwait ∧
      k ≠ .keyword .kwYield := by
  unfold startsOperand at h
  split at h
  all_goals first | exact ⟨rfl, rfl, nofun, nofun⟩ | cases h

end

/-! # Operands that could be patterns

An operand in front of which a pattern or parameters could stand too: names,
brackets and braces, and parentheses. -/

/-- The operand `x` from `i` to `m`, by the token it starts with. -/
inductive BaseAt (rd : Reading) (cx : Context) (i m : Nat) : Expr → Prop
  | word {sp name} : namesVariable (rd.kindAt i) = true → rd.Takes i m →
      BaseAt rd cx i m (.ident sp name)
  | asyncFunction {sp f} : rd.kindAt i = .keyword .kwAsync →
      rd.kindAt (rd.past i) = .keyword .kwFunction → BaseAt rd cx i m (.function sp f)
  | array {sp elements i₁} : rd.Reads (.punct .lBracket) i i₁ →
      Spells rd (.items cx.allowIn .element elements) i₁ m → BaseAt rd cx i m (.array sp elements)
  | object {sp properties i₁} : rd.Reads (.punct .lBrace) i i₁ →
      Spells rd (.items cx.allowIn .property properties) i₁ m →
      BaseAt rd cx i m (.object sp properties)
  | paren {sp inner i₁ i₂} : rd.Reads (.punct .lParen) i i₁ →
      Spells rd (.expr cx.allowIn inner) i₁ i₂ → rd.Reads (.punct .rParen) i₂ m →
      BaseAt rd cx i m (.paren sp inner)
  | other {x} : startsBinding (rd.kindAt i) = false → rd.kindAt i ≠ .punct .lParen →
      BaseAt rd cx i m x

def isArrow : Expr → Bool
  | .arrow _ _ _ _ | .arrowBlock _ _ _ _ => true
  | _ => false

section
variable {rd : Reading} {cx : Context} {x e : Expr} {i m j : Nat}

theorem Derives.baseAt (h : Spells rd (.expr cx x) i m) (hbase : isBase x = true) :
    BaseAt rd cx i m x := by
  have hother : ∀ {k}, rd.kindAt i = k → startsBinding k = false → k ≠ .punct .lParen →
      BaseAt rd cx i m x := by
    rintro k rfl hbinding hparen
    exact .other hbinding hparen
  cases h with
  | null hread | trueWord hread | falseWord hread | this hread | super hread | number hread
  | new hread | newBare hread => exact hother hread.1 rfl nofun
  | string hstring => exact hother hstring.1 rfl nofun
  | regex hregex => cases hregex with
    | slash hk | slashEq hk => exact hother hk rfl nofun
  | quasi htemplate => exact hother (of_decide_eq_true htemplate.opens) rfl nofun
  | «class» hclass => exact hother (of_decide_eq_true hclass.opens) rfl nofun
  | ident hword => exact .word (by rw [hword.1.1]; rfl) hword.1.2
  | asyncIdent hread => exact .word (by rw [hread.1]; rfl) hread.2
  | array hopen helements => exact .array hopen helements
  | object hopen hproperties => exact .object hopen hproperties
  | paren hopen hinner hclose => exact .paren hopen hinner hclose
  | function hf =>
    cases hf with
    | func _ hrest => exact hother (of_decide_eq_true hrest.opens) rfl nofun
    | asyncFunc _ hword hrest =>
      refine .asyncFunction hword.1 ?_
      rw [hword.2.1]
      exact of_decide_eq_true hrest.opens
  | binary =>
    rw [isBase_binary] at hbase
    cases hbase
  | _ => cases hbase

theorem BaseAt.elements (h : BaseAt rd cx i m x) (hk : rd.kindAt i = .punct .lBracket) :
    ∃ sp elements i₁, x = .array sp elements ∧ rd.Reads (.punct .lBracket) i i₁ ∧
      Spells rd (.items cx.allowIn .element elements) i₁ m := by
  cases h with
  | array hopen helements => exact ⟨_, _, _, rfl, hopen, helements⟩
  | word hword =>
    rw [hk] at hword
    cases hword
  | asyncFunction hasync => cases hk.symm.trans hasync
  | object hopen | paren hopen => cases hk.symm.trans hopen.1
  | other hother =>
    rw [hk] at hother
    cases hother

theorem BaseAt.properties (h : BaseAt rd cx i m x) (hk : rd.kindAt i = .punct .lBrace) :
    ∃ sp properties i₁, x = .object sp properties ∧ rd.Reads (.punct .lBrace) i i₁ ∧
      Spells rd (.items cx.allowIn .property properties) i₁ m := by
  cases h with
  | object hopen hproperties => exact ⟨_, _, _, rfl, hopen, hproperties⟩
  | word hword =>
    rw [hk] at hword
    cases hword
  | asyncFunction hasync => cases hk.symm.trans hasync
  | array hopen | paren hopen => cases hk.symm.trans hopen.1
  | other hother =>
    rw [hk] at hother
    cases hother

/-- Where an expression between commas starts with a token for operands, it is an
arrow function or an assignment to a pattern, or it starts with an operand. -/
theorem Derives.lead_operand [rd.Ended] (h : Spells rd (.expr cx e) i j)
    (hlevel : Level.assignment ≤ e.level) (hk : startsOperand (rd.kindAt i) = true) :
    isArrow e = true ∧ (namesVariable (rd.kindAt i) = true ∨ rd.kindAt i = .punct .lParen) ∨
      ((rd.kindAt i = .punct .lBracket ∨ rd.kindAt i = .punct .lBrace) ∧
        ∃ sp target value, e = .assignPattern sp target value) ∨
      ∃ x m, BaseAt rd cx i m x ∧ Extends rd cx x m e j := by
  have harrow : ∀ {isAsync params i₁}, Spells rd (.arrowHead isAsync params) i i₁ →
      namesVariable (rd.kindAt i) = true ∨ rd.kindAt i = .punct .lParen := by
    intro isAsync params i₁ hhead
    have hopens := hhead.opens
    rwa [Phrase.opens, Bool.or_eq_true, decide_eq_true_eq] at hopens
  rcases h.lead with hother | ⟨x, m, hbase, hx, hext⟩
  · obtain ⟨hunary, hupdate, hawait, hyield⟩ := no_sign_of_startsOperand hk
    cases hother with
    | signed hsign =>
      rw [hunary, hupdate] at hsign
      rcases hsign with hsign | hsign | hsign
      · cases hsign
      · cases hsign
      · exact absurd hsign hawait
    | yield hk => exact absurd hk hyield
    | arrow => cases h with
      | arrow hhead => exact .inl ⟨rfl, harrow hhead⟩
    | arrowBlock => cases h with
      | arrowBlock hhead => exact .inl ⟨rfl, harrow hhead⟩
    | assignPattern hk => exact .inr (.inl ⟨hk, _, _, _, rfl⟩)
    | sequence => exact absurd hlevel (by simp only [Expr.level]; decide)
  · exact .inr (.inr ⟨x, m, hx.baseAt hbase, hext⟩)

theorem Expr.closed_of_isAssignable (h : e.isAssignable = true) : e.level = Level.closed := by
  cases e with
  | ident | dot | index | paren => rfl
  | _ => cases h

theorem Extends.assigned (h : Extends rd cx x m e j) (hk : rd.kindAt m = .punct .eq) :
    x = e ∧ m = j ∨ x.isAssignable = true ∧ e.level = Level.assignment ∧
      ∃ i₁ value, rd.Reads (.punct .eq) m i₁ ∧ Spells rd (.expr cx value) i₁ j ∧
        Level.assignment ≤ value.level := by
  have hstep : ∀ {left : Expr} {k : Token.Kind} {i₁ : Nat}, (x = left ∧ m = i₁ ∨
      x.isAssignable = true ∧ left.level = Level.assignment ∧
        ∃ i₂ value, rd.Reads (.punct .eq) m i₂ ∧ Spells rd (.expr cx value) i₂ i₁ ∧
          Level.assignment ≤ value.level) → Level.assignment < left.level → rd.kindAt i₁ = k →
      x = left ∧ m = i₁ ∧ k = .punct .eq := by
    rintro left k i₁ (⟨hx, rfl⟩ | ⟨_, hlevel, _⟩) hlt rfl
    · exact ⟨hx, rfl, hk⟩
    · exact absurd hlevel (Nat.ne_of_gt hlt)
  have hclosed : ∀ {left : Expr}, left.level = Level.closed → Level.assignment < left.level := by
    intro left hleft
    rw [hleft]
    decide
  induction h with
  | refl => exact .inl ⟨rfl, rfl⟩
  | dot _ hobject hread _ _ _ ih | index _ hobject hread _ _ ih | call _ hobject hread _ ih =>
    exact absurd (hstep ih (hclosed hobject.1) hread.1).2.2 nofun
  | tagged _ hobject htemplate ih =>
    exact absurd (hstep ih (hclosed hobject.1) (of_decide_eq_true htemplate.opens)).2.2 nofun
  | trailing _ harg _ hread hop ih =>
    obtain ⟨_, _, rfl⟩ := hstep ih (hclosed harg) hread.1
    cases hop
  | @binary _ _ op left _ _ _ _ _ hleft hread hop _ _ ih =>
    have hbounds := BinaryOp.level_bounds op
    have hle := BinaryOp.level_le_leftLevel op
    obtain ⟨_, _, rfl⟩ := hstep ih (by change 3 < left.level; omega) hread.1
    cases hnoIn : cx.noIn <;> rw [hnoIn] at hop <;> cases hop
  | conditional _ htest hread _ _ _ _ _ ih =>
    exact absurd (hstep ih (Nat.lt_trans (by decide) htest) hread.1).2.2 nofun
  | assign _ htarget hread _ hvalue hlevel ih =>
    obtain ⟨rfl, rfl, rfl⟩ := hstep ih (hclosed (Expr.closed_of_isAssignable htarget)) hread.1
    exact .inr ⟨htarget, rfl, _, _, hread, hvalue, hlevel⟩

theorem Extends.called (h : Extends rd cx x m e j) (hk : rd.kindAt m = .punct .lParen) :
    x = e ∧ m = j ∨ ∃ sp args i₁ m', rd.Reads (.punct .lParen) m i₁ ∧
      Spells rd (.items cx.allowIn .arg args) i₁ m' ∧ Extends rd cx (.call sp x args) m' e j := by
  induction h with
  | refl => exact .inl ⟨rfl, rfl⟩
  | dot _ hobject hread hname htext htake ih =>
    rcases ih with ⟨rfl, rfl⟩ | ⟨sp, args, i₁, m', hopen, hargs, hext⟩
    · cases hk.symm.trans hread.1
    · exact .inr ⟨sp, args, i₁, m', hopen, hargs, .dot hext hobject hread hname htext htake⟩
  | index _ hobject hread hproperty hclose ih =>
    rcases ih with ⟨rfl, rfl⟩ | ⟨sp, args, i₁, m', hopen, hargs, hext⟩
    · cases hk.symm.trans hread.1
    · exact .inr ⟨sp, args, i₁, m', hopen, hargs, .index hext hobject hread hproperty hclose⟩
  | call _ hobject hread hargs ih =>
    rcases ih with ⟨rfl, rfl⟩ | ⟨sp, args', i₁, m', hopen, hargs', hext⟩
    · exact .inr ⟨_, _, _, _, hread, hargs, .refl⟩
    · exact .inr ⟨sp, args', i₁, m', hopen, hargs', .call hext hobject hread hargs⟩
  | tagged _ hobject htemplate ih =>
    rcases ih with ⟨rfl, rfl⟩ | ⟨sp, args, i₁, m', hopen, hargs, hext⟩
    · cases hk.symm.trans (of_decide_eq_true htemplate.opens)
    · exact .inr ⟨sp, args, i₁, m', hopen, hargs, .tagged hext hobject htemplate⟩
  | trailing _ harg hline hread hop ih =>
    rcases ih with ⟨rfl, rfl⟩ | ⟨sp, args, i₁, m', hopen, hargs, hext⟩
    · obtain rfl := hk.symm.trans hread.1
      cases hop
    · exact .inr ⟨sp, args, i₁, m', hopen, hargs, .trailing hext harg hline hread hop⟩
  | binary _ hleft hread hop hright hrightLevel ih =>
    rcases ih with ⟨rfl, rfl⟩ | ⟨sp, args, i₁, m', hopen, hargs, hext⟩
    · obtain rfl := hk.symm.trans hread.1
      cases hnoIn : cx.noIn <;> rw [hnoIn] at hop <;> cases hop
    · exact .inr ⟨sp, args, i₁, m', hopen, hargs, .binary hext hleft hread hop hright hrightLevel⟩
  | conditional _ htest hread hyes hyesLevel hcolon hno hnoLevel ih =>
    rcases ih with ⟨rfl, rfl⟩ | ⟨sp, args, i₁, m', hopen, hargs, hext⟩
    · cases hk.symm.trans hread.1
    · exact .inr ⟨sp, args, i₁, m', hopen, hargs,
        .conditional hext htest hread hyes hyesLevel hcolon hno hnoLevel⟩
  | assign _ htarget hread hop hvalue hlevel ih =>
    rcases ih with ⟨rfl, rfl⟩ | ⟨sp, args, i₁, m', hopen, hargs, hext⟩
    · obtain rfl := hk.symm.trans hread.1
      cases hop
    · exact .inr ⟨sp, args, i₁, m', hopen, hargs, .assign hext htarget hread hop hvalue hlevel⟩

end

end Grammar
end ScriptBundler
