import ScriptBundler.Grammar.Program

/-!
# Parsers that agree

Two runs over the same tokens that differ only in what they keep of failures,
or in how deep they may go, give the same answers.  A `Coupling` says how what
the two sides keep fits together, and `Agrees` that two parsers cannot be told
apart by their answers and keep to the coupling.  The left side may run out of
calls; nothing is said about that case.

Each way to build a parser has an instance of `Akin` here, and so has each
production over rules that agree.  That a production is akin to itself is then
read off from how it is built, once the cases of a match are told apart.
-/

namespace ScriptBundler
namespace Grammar

open Grammar.Parser

set_option synthInstance.maxSize 10000

namespace Stream

variable {ts ts' : Stream}

section
variable (h : ts'.tokens = ts.tokens)
include h

theorem token_congr (i : Nat) : ts'.token i = ts.token i := by
  unfold token
  rw [h]

theorem lineCommentEnd_congr (left i : Nat) :
    ts'.lineCommentEnd left i = ts.lineCommentEnd left i := by
  induction left generalizing i with
  | zero => rfl
  | succ left ih => simp only [lineCommentEnd, token_congr h, ih]

theorem blockCommentEndFrom_congr (left i : Nat) (afterStar crossed : Bool) :
    ts'.blockCommentEndFrom left i afterStar crossed =
      ts.blockCommentEndFrom left i afterStar crossed := by
  induction left generalizing i afterStar crossed with
  | zero => rfl
  | succ left ih => simp only [blockCommentEndFrom, token_congr h, ih]

theorem trivium?_congr (i : Nat) : ts'.trivium? i = ts.trivium? i := by
  simp only [trivium?, blockCommentEnd, token_congr h, h, lineCommentEnd_congr h,
    blockCommentEndFrom_congr h]

theorem skipFrom_congr (left i : Nat) (crossed : Bool) :
    ts'.skipFrom left i crossed = ts.skipFrom left i crossed := by
  induction left generalizing i crossed with
  | zero => rfl
  | succ left ih => simp only [skipFrom, trivium?_congr h, h, ih]

theorem skip_congr (i : Nat) : ts'.skip i = ts.skip i := by
  unfold skip
  rw [h]
  exact skipFrom_congr h _ _ _

end

end Stream

/-!
# Couplings

A coupling says how the failures that two runs keep fit together.  From states that
it joins, parsers that agree answer alike.
-/

/-- How what two runs over the same tokens keep of failures fits together. -/
structure Coupling (ts ts' : Stream) where
  tokens : ts'.tokens = ts.tokens
  Kept : Progress → Progress → Prop
  /-- Only what is kept of failures counts. -/
  moved : ∀ {s s' : Progress}, Kept s s' → ∀ pos lastEnd pos' lastEnd',
    Kept { s with pos := pos, lastEnd := lastEnd } { s' with pos := pos', lastEnd := lastEnd' }
  recorded : ∀ {s s' : Progress}, Kept s s' → ∀ t, Kept (s.record t) (s'.record t)

variable {ts ts' : Stream} {C : Coupling ts ts'}

structure Coupling.Joined (C : Coupling ts ts') (s s' : Progress) : Prop where
  pos : s'.pos = s.pos
  lastEnd : s'.lastEnd = s.lastEnd
  kept : C.Kept s s'

theorem Coupling.Joined.moved {s s' : Progress} (h : C.Joined s s') (pos lastEnd : Nat) :
    C.Joined { s with pos := pos, lastEnd := lastEnd }
      { s' with pos := pos, lastEnd := lastEnd } :=
  ⟨rfl, rfl, C.moved h.kept _ _ _ _⟩

/-- Answers that cannot be told apart, unless the left side has run out of
calls. -/
def Alike {α : Type} (C : Coupling ts ts') :
    EStateM.Result Failure Progress α → EStateM.Result Failure Progress α → Prop
  | .error .exhausted _, _ => True
  | .ok a s, .ok a' s' => a' = a ∧ C.Joined s s'
  | .error (.unexpected t) s, .error (.unexpected t') s' => t' = t ∧ C.Kept s s'
  | _, _ => False

/-- Two parsers answer alike from any two states that are joined. -/
def Agrees {α : Type} (C : Coupling ts ts') (p p' : Parser α) : Prop :=
  ∀ s s', C.Joined s s' → Alike C (p ts s) (p' ts' s')

theorem Alike.cases {α : Type} {x x' : EStateM.Result Failure Progress α} (h : Alike C x x') :
    (∃ s, x = .error .exhausted s) ∨ (∃ a s s', x = .ok a s ∧ x' = .ok a s' ∧ C.Joined s s') ∨
      ∃ t s s', x = .error (.unexpected t) s ∧ x' = .error (.unexpected t) s' ∧ C.Kept s s' := by
  unfold Alike at h
  split at h
  · exact .inl ⟨_, rfl⟩
  · exact .inr (.inl ⟨_, _, _, rfl, by rw [h.1], h.2⟩)
  · exact .inr (.inr ⟨_, _, _, rfl, by rw [h.1], h.2⟩)
  · exact h.elim

theorem Alike.bind {α β : Type} {p p' : Parser α} {f f' : α → Parser β} {s s' : Progress}
    (hp : Alike C (p ts s) (p' ts' s')) (hf : ∀ a, Agrees C (f a) (f' a)) :
    Alike C ((p >>= f) ts s) ((p' >>= f') ts' s') := by
  change Alike C (EStateM.bind (p ts) (fun a => f a ts) s)
    (EStateM.bind (p' ts') (fun a => f' a ts') s')
  unfold EStateM.bind
  rcases hp.cases with
    ⟨_, hrun⟩ | ⟨a, s₁, s₁', hrun, hrun', hjoined⟩ | ⟨t, s₁, s₁', hrun, hrun', hkept⟩
  · rw [hrun]
    trivial
  · rw [hrun, hrun']
    exact hf a s₁ s₁' hjoined
  · rw [hrun, hrun']
    exact ⟨rfl, hkept⟩

section
variable {α β : Type} {p p' q q' : Parser α}

namespace Agrees

theorem bind {f f' : α → Parser β} (hp : Agrees C p p') (hf : ∀ a, Agrees C (f a) (f' a)) :
    Agrees C (p >>= f) (p' >>= f') :=
  fun s s' h => (hp s s' h).bind hf

theorem look {g : Stream → Progress → α} (hg : ∀ s s', C.Joined s s' → g ts' s' = g ts s) :
    Agrees C (fun ts s => .ok (g ts s) s) (fun ts s => .ok (g ts s) s) :=
  fun s s' h => ⟨hg s s' h, h⟩

theorem attempt (h : Agrees C p p') : Agrees C (Parser.attempt p) (Parser.attempt p') := by
  intro s s' hjoined
  unfold Parser.attempt
  rcases (h s s' hjoined).cases with
    ⟨_, hrun⟩ | ⟨a, s₁, s₁', hrun, hrun', hjoined'⟩ | ⟨t, s₁, s₁', hrun, hrun', hkept⟩
  · rw [hrun]
    trivial
  · rw [hrun, hrun']
    exact ⟨rfl, hjoined'⟩
  · rw [hrun, hrun']
    exact ⟨rfl, hjoined.pos, hjoined.lastEnd, C.moved (C.recorded hkept t) _ _ _ _⟩

end Agrees
end

/-!
# Parsers built in the same way

Instances find out that a parser agrees with another one that is put together in
the same way.
-/

/-- Parsers that agree because of how they are built. -/
class Akin {α : Type} (C : Coupling ts ts') (p p' : Parser α) : Prop where
  agrees : Agrees C p p'

namespace Akin

section
variable {α β : Type} {p p' q q' : Parser α} {f f' : α → Parser β}

theorem bind [hp : Akin C p p'] (hf : ∀ a, Akin C (f a) (f' a)) : Akin C (p >>= f) (p' >>= f') :=
  ⟨.bind hp.agrees fun a => (hf a).agrees⟩

instance (a : α) : Akin C (Pure.pure a : Parser α) (Pure.pure a) :=
  ⟨fun _ _ h => ⟨rfl, h⟩⟩

instance [Akin C p p'] [hf : ∀ a, Akin C (f a) (f' a)] : Akin C (p >>= f) (p' >>= f') :=
  bind hf

instance {g : α → β} [Akin C p p'] : Akin C (g <$> p) (g <$> p') :=
  bind fun a => inferInstanceAs (Akin C (Pure.pure (g a) : Parser β) (Pure.pure (g a)))

instance {c : Prop} [Decidable c] [hp : Akin C p p'] [hq : Akin C q q'] :
    Akin C (if c then p else q) (if c then p' else q') := by
  split
  · exact hp
  · exact hq

theorem exhausted : Akin C (Parser.exhausted (α := α)) p' :=
  ⟨fun _ _ _ => trivial⟩

instance (t : Token) : Akin C (unexpectedAt (α := α) t) (unexpectedAt t) :=
  ⟨fun _ _ h => ⟨rfl, h.kept⟩⟩

end

instance : Akin C peek peek :=
  ⟨.look fun s s' h => by
    rw [h.pos, Stream.skip_congr C.tokens, Stream.token_congr C.tokens]⟩

instance : Akin C peekKind peekKind :=
  ⟨.look fun s s' h => by
    rw [h.pos, Stream.skip_congr C.tokens, Stream.token_congr C.tokens]⟩

instance : Akin C peekSecondKind peekSecondKind :=
  ⟨.look fun s s' h => by
    rw [h.pos, Stream.skip_congr C.tokens, Stream.skip_congr C.tokens,
      Stream.token_congr C.tokens]⟩

instance : Akin C newlineBefore newlineBefore :=
  ⟨.look fun s s' h => by rw [h.pos, Stream.skip_congr C.tokens]⟩

instance : Akin C nextIndex nextIndex :=
  ⟨.look fun s s' h => by rw [h.pos, Stream.skip_congr C.tokens]⟩

instance : Akin C rawPeek rawPeek :=
  ⟨.look fun s s' h => by rw [h.pos, Stream.token_congr C.tokens]⟩

instance : Akin C rawPeekSecond rawPeekSecond :=
  ⟨.look fun s s' h => by rw [h.pos, Stream.token_congr C.tokens]⟩

instance : Akin C rawIndex rawIndex :=
  ⟨.look fun _ _ h => h.pos⟩

instance (start : Nat) : Akin C (spanFrom start) (spanFrom start) :=
  ⟨.look fun s s' h => by rw [h.lastEnd]⟩

instance (first : Nat) : Akin C (textFrom first) (textFrom first) :=
  ⟨.look fun s s' h => by rw [h.pos, C.tokens]⟩

instance : Akin C advance advance := by
  refine ⟨fun s s' h => ?_⟩
  unfold advance
  dsimp only
  rw [h.pos, Stream.skip_congr C.tokens, Stream.token_congr C.tokens]
  split
  · exact ⟨rfl, rfl, h.lastEnd, C.moved h.kept _ s.lastEnd _ s'.lastEnd⟩
  · exact ⟨rfl, h.moved _ _⟩

instance : Akin C rawAdvance rawAdvance := by
  refine ⟨fun s s' h => ?_⟩
  unfold rawAdvance
  dsimp only
  rw [h.pos, Stream.token_congr C.tokens]
  split
  · exact ⟨rfl, h⟩
  · exact ⟨rfl, h.moved _ _⟩

section
variable {α : Type} {k : Token.Kind} {mark : Punctuator} {keyword : Keyword} {word : String}

instance : Akin C (unexpected (α := α)) unexpected :=
  bind fun _ => inferInstance

instance : Akin C here here := by
  unfold here
  infer_instance

instance : Akin C (isAt k) (isAt k) := by
  unfold isAt
  infer_instance

instance : Akin C (atMark mark) (atMark mark) := by
  unfold atMark
  infer_instance

instance : Akin C (atKeyword keyword) (atKeyword keyword) := by
  unfold atKeyword
  infer_instance

instance : Akin C (atWord word) (atWord word) := by
  unfold atWord
  infer_instance

instance : Akin C (eat k) (eat k) := by
  unfold eat
  infer_instance

instance : Akin C (eatMark mark) (eatMark mark) := by
  unfold eatMark
  infer_instance

instance : Akin C (eatKeyword keyword) (eatKeyword keyword) := by
  unfold eatKeyword
  infer_instance

instance : Akin C (eatWord word) (eatWord word) := by
  unfold eatWord
  infer_instance

instance : Akin C (expect k) (expect k) := by
  unfold expect
  infer_instance

instance : Akin C (expectMark mark) (expectMark mark) := by
  unfold expectMark
  infer_instance

instance : Akin C (expectKeyword keyword) (expectKeyword keyword) := by
  unfold expectKeyword
  infer_instance

instance : Akin C (expectWord word) (expectWord word) := by
  unfold expectWord
  infer_instance

instance : Akin C identifier identifier := by
  unfold identifier
  infer_instance

instance : Akin C variableName variableName := by
  unfold variableName
  infer_instance

instance : Akin C anyName anyName := by
  unfold anyName
  infer_instance

instance : Akin C semicolon semicolon := by
  unfold semicolon
  infer_instance

end

section
variable {α : Type} {p p' : Parser α}

instance {loop loop' : Nat → Parser α} [h : ∀ n, Akin C (loop n) (loop' n)] :
    Akin C (bounded loop) (bounded loop') := by
  refine ⟨fun s s' hjoined => ?_⟩
  unfold bounded
  rw [C.tokens]
  exact (h _).agrees s s' hjoined

instance {step step' : Parser (Option α)} [Akin C step step'] :
    Akin C (collect step) (collect step') := by
  have hloop : ∀ n done, Akin C (collectLoop step done n) (collectLoop step' done n) := by
    intro n
    induction n with
    | zero => exact fun done => exhausted
    | succ n ih =>
      intro done
      refine bind fun a => ?_
      cases a with
      | none => exact inferInstance
      | some a => exact ih (a :: done)
  unfold collect
  infer_instance

instance {more more' : Parser Bool} [Akin C more more'] [Akin C p p'] :
    Akin C (collectWhile more p) (collectWhile more' p') := by
  unfold collectWhile
  infer_instance

instance {close : Punctuator} {hole : Option α} [Akin C p p'] :
    Akin C (commaList close hole p) (commaList close hole p') := by
  have hloop : ∀ n done,
      Akin C (commaListLoop close hole p done n) (commaListLoop close hole p' done n) := by
    intro n
    induction n with
    | zero => exact fun done => exhausted
    | succ n ih =>
      intro done
      unfold commaListLoop
      cases hole <;> infer_instance
  unfold commaList
  infer_instance

instance [h : Akin C p p'] : Akin C (attempt p) (attempt p') :=
  ⟨h.agrees.attempt⟩

end

instance {quote : Token} {n : Nat} : Akin C (stringBody quote n) (stringBody quote n) := by
  induction n with
  | zero => exact exhausted
  | succ n ih =>
    unfold stringBody
    refine bind fun t => ?_
    split <;> infer_instance

instance : Akin C stringLiteral stringLiteral := by
  unfold stringLiteral
  infer_instance

instance : Akin C expectString expectString := by
  unfold expectString
  infer_instance

section
variable {sub sub' : Parser Unit} [Akin C sub sub']

instance {mark : Token} {n : Nat} :
    Akin C (templateBody sub mark n) (templateBody sub' mark n) := by
  induction n with
  | zero => exact exhausted
  | succ n ih =>
    unfold templateBody
    refine bind fun t => ?_
    dsimp only
    split <;> infer_instance

instance : Akin C (templateLiteral sub) (templateLiteral sub') := by
  unfold templateLiteral
  infer_instance

end

instance {slash : Token} {inClass : Bool} {n : Nat} :
    Akin C (regexBody slash inClass n) (regexBody slash inClass n) := by
  induction n generalizing inClass with
  | zero => exact exhausted
  | succ n ih =>
    unfold regexBody
    refine bind fun t => ?_
    split <;> infer_instance

instance : Akin C regexLiteral regexLiteral := by
  unfold regexLiteral
  infer_instance

end Akin

def Agreeing (C : Coupling ts ts') (r r' : Rules) : Prop :=
  ∀ goal cx, Agrees C (r goal cx) (r' goal cx)

class AkinRules (C : Coupling ts ts') (r r' : Rules) : Prop where
  agreeing : Agreeing C r r'

section
variable {item item' : Parser Expr} {st st' : Parser Stmt} {stop : List Token.Kind}

instance [Akin C item item'] : Akin C (commaSequence item) (commaSequence item') := by
  unfold commaSequence
  infer_instance

instance [Akin C st st'] : Akin C (statementsUntil stop st) (statementsUntil stop st') := by
  unfold statementsUntil
  infer_instance

end

variable {r r' : Rules} {cx : Context} {start : Nat} {isAsync required : Bool}

section
variable [h : AkinRules C r r']

instance : Akin C (r.assignment cx) (r'.assignment cx) :=
  ⟨h.agreeing _ _⟩

instance : Akin C (r.unary cx) (r'.unary cx) :=
  ⟨h.agreeing _ _⟩

instance : Akin C (r.operand cx) (r'.operand cx) :=
  ⟨h.agreeing _ _⟩

instance : Akin C (r.construct cx) (r'.construct cx) :=
  ⟨h.agreeing _ _⟩

instance : Akin C (r.pattern cx) (r'.pattern cx) :=
  ⟨h.agreeing _ _⟩

instance : Akin C (r.statement cx) (r'.statement cx) :=
  ⟨h.agreeing _ _⟩

instance : Akin C (expression r cx) (expression r' cx) := by
  unfold expression
  infer_instance

instance : Akin C (block r cx) (block r' cx) := by
  unfold block
  infer_instance

instance : Akin C (template r cx) (template r' cx) := by
  unfold template
  infer_instance

instance : Akin C (propertyKey r cx) (propertyKey r' cx) := by
  unfold propertyKey
  refine .bind fun t => ?_
  split
  · infer_instance
  · split <;> infer_instance

instance : Akin C (defaultValue r cx) (defaultValue r' cx) := by
  unfold defaultValue
  infer_instance

instance : Akin C (arrayElement r cx) (arrayElement r' cx) := by
  unfold arrayElement
  infer_instance

instance : Akin C (objectElement r cx) (objectElement r' cx) := by
  unfold objectElement
  refine .bind fun _ => ?_
  split
  · infer_instance
  · refine .bind fun _ => .bind fun _ => .bind fun key => .bind fun _ => ?_
    cases key <;> infer_instance

instance : Akin C (pattern r cx) (pattern r' cx) := by
  unfold pattern
  refine .bind fun _ => .bind fun k => ?_
  split <;> infer_instance

instance : Akin C (param r cx) (param r' cx) := by
  unfold param
  infer_instance

instance : Akin C (params r cx) (params r' cx) := by
  unfold params
  infer_instance

instance : Akin C (declaredName required) (declaredName required) := by
  unfold declaredName
  infer_instance

instance : Akin C methodStart methodStart := by
  unfold methodStart
  infer_instance

instance : Akin C (function r isAsync required) (function r' isAsync required) := by
  unfold function
  infer_instance

instance : Akin C (asyncFunction r required) (asyncFunction r' required) := by
  unfold asyncFunction
  infer_instance

instance {m : MethodStart} : Akin C (methodBody r start m) (methodBody r' start m) := by
  unfold methodBody
  infer_instance

instance : Akin C (classMember r cx) (classMember r' cx) := by
  unfold classMember
  dsimp only
  infer_instance

instance : Akin C (classParts r cx required) (classParts r' cx required) := by
  unfold classParts
  dsimp only
  infer_instance

instance : Akin C (spreadOrAssignment r cx) (spreadOrAssignment r' cx) := by
  unfold spreadOrAssignment
  infer_instance

instance : Akin C (arguments r cx) (arguments r' cx) := by
  unfold arguments
  infer_instance

instance : Akin C (arrayLiteral r cx) (arrayLiteral r' cx) := by
  unfold arrayLiteral
  infer_instance

instance : Akin C (property r cx) (property r' cx) := by
  unfold property
  refine .bind fun _ => .bind fun _ => ?_
  split
  · infer_instance
  · refine .bind fun _ => .bind fun _ => .bind fun key => ?_
    cases key <;> infer_instance

instance : Akin C (objectLiteral r cx) (objectLiteral r' cx) := by
  unfold objectLiteral
  infer_instance

instance : Akin C (primary r cx) (primary r' cx) := by
  unfold primary
  refine .bind fun t => ?_
  dsimp only
  split <;> infer_instance

instance {calls : Bool} {e : Expr} :
    Akin C (tail? r cx calls start e) (tail? r' cx calls start e) := by
  unfold tail?
  refine .bind fun k => ?_
  split <;> infer_instance

instance {calls : Bool} {e : Expr} : Akin C (tails r cx calls e) (tails r' cx calls e) := by
  have hloop : ∀ n start e,
      Akin C (tailsLoop r cx calls start e n) (tailsLoop r' cx calls start e n) := by
    intro n start
    induction n with
    | zero => exact fun _ => Akin.exhausted
    | succ n ih =>
      intro e
      unfold tailsLoop
      refine .bind fun next => ?_
      cases next <;> infer_instance
  unfold tails
  infer_instance

instance : Akin C (construct r cx) (construct r' cx) := by
  unfold construct
  dsimp only
  infer_instance

instance : Akin C (operand r cx) (operand r' cx) := by
  unfold operand
  infer_instance

instance : Akin C (updated r cx) (updated r' cx) := by
  unfold updated
  refine .bind fun _ => .bind fun _ => .bind fun k => ?_
  split <;> infer_instance

instance : Akin C (unary r cx) (unary r' cx) := by
  unfold unary
  refine .bind fun _ => .bind fun k => ?_
  split
  · infer_instance
  · split <;> infer_instance

instance : Akin C (binary r cx) (binary r' cx) := by
  have hstep : Akin C (do
      match binaryOp? cx (← peekKind) with
      | none => return none
      | some op =>
        let _ ← advance
        return some (op, ← unary r cx)) (do
      match binaryOp? cx (← peekKind) with
      | none => return none
      | some op =>
        let _ ← advance
        return some (op, ← unary r' cx)) := by
    refine .bind fun k => ?_
    split <;> infer_instance
  unfold binary
  infer_instance

instance : Akin C (conditional r cx) (conditional r' cx) := by
  unfold conditional
  infer_instance

instance : Akin C (yieldExpr r cx) (yieldExpr r' cx) := by
  unfold yieldExpr
  dsimp only
  infer_instance

instance : Akin C arrowPossible arrowPossible := by
  unfold arrowPossible
  refine .bind fun k => ?_
  split <;> infer_instance

instance : Akin C (arrowParams r cx) (arrowParams r' cx) := by
  unfold arrowParams
  infer_instance

instance : Akin C (arrowFunction r cx) (arrowFunction r' cx) := by
  unfold arrowFunction
  dsimp only
  infer_instance

instance : Akin C (patternAssignment r cx) (patternAssignment r' cx) := by
  unfold patternAssignment
  infer_instance

instance : Akin C (plainAssignment r cx) (plainAssignment r' cx) := by
  unfold plainAssignment
  refine .bind fun _ => .bind fun _ => .bind fun k => ?_
  dsimp only
  split <;> infer_instance

end

structure Speculates (C : Coupling ts ts') (r r' : Rules) : Prop where
  arrow : ∀ cx, Agrees C (speculate .arrow cx (arrowFunction r cx))
    (speculate .arrow cx (arrowFunction r' cx))
  pattern : ∀ cx, Agrees C (speculate .patternAssignment cx (patternAssignment r cx))
    (speculate .patternAssignment cx (patternAssignment r' cx))

theorem assigned_akin [AkinRules C r r'] (cx : Context) (assigned : Option Expr) : Akin C
    (match assigned with
      | some e => return e
      | none => plainAssignment r cx)
    (match assigned with
      | some e => return e
      | none => plainAssignment r' cx) := by
  cases assigned <;> infer_instance

theorem arrowed_akin [AkinRules C r r'] (hspec : Speculates C r r') (cx : Context)
    (kind : Token.Kind) (arrow : Option Expr) : Akin C
    (match arrow with
      | some e => return e
      | none => do
          let assigned ←
            if kind = .punct .lBrace ∨ kind = .punct .lBracket then
              speculate .patternAssignment cx (patternAssignment r cx)
            else
              pure none
          match assigned with
          | some e => return e
          | none => plainAssignment r cx)
    (match arrow with
      | some e => return e
      | none => do
          let assigned ←
            if kind = .punct .lBrace ∨ kind = .punct .lBracket then
              speculate .patternAssignment cx (patternAssignment r' cx)
            else
              pure none
          match assigned with
          | some e => return e
          | none => plainAssignment r' cx) := by
  have hpattern := Akin.mk (hspec.pattern cx)
  have hplain := @assigned_akin _ _ C r r' _ cx
  cases arrow with
  | some e => infer_instance
  | none =>
    dsimp only
    infer_instance

theorem assignment_akin [AkinRules C r r'] (hspec : Speculates C r r') (cx : Context) :
    Akin C (assignment r cx) (assignment r' cx) := by
  have harrow := Akin.mk (hspec.arrow cx)
  have hrest := arrowed_akin hspec cx
  unfold assignment
  refine .bind fun kind => ?_
  split
  · infer_instance
  · dsimp only
    infer_instance

instance : Akin C importSpecifier importSpecifier := by
  unfold importSpecifier
  dsimp only
  infer_instance

instance : Akin C importList importList := by
  unfold importList
  infer_instance

instance : Akin C importClause importClause := by
  unfold importClause
  infer_instance

instance : Akin C importStatement importStatement := by
  unfold importStatement
  dsimp only
  infer_instance

instance : Akin C exportSpecifier exportSpecifier := by
  unfold exportSpecifier
  dsimp only
  infer_instance

instance : Akin C varKind varKind := by
  unfold varKind
  refine .bind fun t => ?_
  split <;> infer_instance

instance : Akin C jumpLabel jumpLabel := by
  unfold jumpLabel
  infer_instance

instance : Akin C atStatementEnd atStatementEnd := by
  unfold atStatementEnd
  refine .bind fun _ => ?_
  split
  · infer_instance
  · refine .bind fun k => ?_
    split <;> infer_instance

section
variable [AkinRules C r r']

instance : Akin C (exportedDefault r cx) (exportedDefault r' cx) := by
  unfold exportedDefault
  refine .bind fun _ => .bind fun k => ?_
  split <;> infer_instance

instance : Akin C (exportStatement r cx) (exportStatement r' cx) := by
  unfold exportStatement
  refine .bind fun start => .bind fun _ => .bind fun k => ?_
  have hdecl : Akin C (do
      match ← r.statement cx with
      | .decl value => return Stmt.exportDecl (← spanFrom start) value
      | _ => unexpectedAt (← rawPeek)) (do
      match ← r'.statement cx with
      | .decl value => return Stmt.exportDecl (← spanFrom start) value
      | _ => unexpectedAt (← rawPeek)) := by
    refine .bind fun st => ?_
    cases st <;> infer_instance
  dsimp only
  split <;> infer_instance

instance : Akin C (condition r cx) (condition r' cx) := by
  unfold condition
  infer_instance

instance : Akin C (declarator r cx) (declarator r' cx) := by
  unfold declarator
  dsimp only
  infer_instance

instance : Akin C (declarators r cx) (declarators r' cx) := by
  unfold declarators
  infer_instance

instance : Akin C (switchCase r cx) (switchCase r' cx) := by
  unfold switchCase
  dsimp only
  infer_instance

instance : Akin C (switchStatement r cx start) (switchStatement r' cx start) := by
  unfold switchStatement
  infer_instance

instance : Akin C (handler r cx) (handler r' cx) := by
  unfold handler
  dsimp only
  infer_instance

instance : Akin C (tryStatement r cx start) (tryStatement r' cx start) := by
  have hlast : ∀ (body : List Stmt) (handler : Option Handler) (finalizer : Option (List Stmt)),
      Akin C (match handler, finalizer with
        | some h, none => do return Stmt.tryCatch (← spanFrom start) body h.span h.param h.body
        | none, some f => do return .tryFinally (← spanFrom start) body f
        | some h, some f => do
            return .tryCatchFinally (← spanFrom start) body h.span h.param h.body f
        | none, none => unexpected)
      (match handler, finalizer with
        | some h, none => do return Stmt.tryCatch (← spanFrom start) body h.span h.param h.body
        | none, some f => do return .tryFinally (← spanFrom start) body f
        | some h, some f => do
            return .tryCatchFinally (← spanFrom start) body h.span h.param h.body f
        | none, none => unexpected) := by
    intro body handler finalizer
    cases handler <;> cases finalizer <;> infer_instance
  unfold tryStatement
  dsimp only
  infer_instance

instance : Akin C (forEach r cx start) (forEach r' cx start) := by
  unfold forEach
  dsimp only
  infer_instance

instance {mark : Punctuator} :
    Akin C (optionalBefore mark (expression r cx)) (optionalBefore mark (expression r' cx)) := by
  unfold optionalBefore
  infer_instance

instance : Akin C (forCount r cx start) (forCount r' cx start) := by
  unfold forCount
  dsimp only
  infer_instance

instance : Akin C (forStatement r cx start) (forStatement r' cx start) := by
  unfold forStatement
  refine .bind fun loop => ?_
  cases loop <;> infer_instance

end

section
variable [AkinRules C r r'] (hspec : Speculates C r r')
include hspec

theorem expressionStatement_akin :
    Akin C (expressionStatement r cx start) (expressionStatement r' cx start) := by
  have := assignment_akin hspec cx
  unfold expressionStatement
  infer_instance

theorem keywordStatement_akin {word : Keyword} :
    Akin C (keywordStatement r cx start word) (keywordStatement r' cx start word) := by
  have hexpression : Akin C (expressionStatement r cx start) (expressionStatement r' cx start) :=
    expressionStatement_akin hspec
  cases word <;>
    · unfold keywordStatement
      dsimp only
      infer_instance

theorem statement_akin : Akin C (statement r cx) (statement r' cx) := by
  have hexpression : ∀ start,
      Akin C (expressionStatement r cx start) (expressionStatement r' cx start) :=
    fun _ => expressionStatement_akin hspec
  have hkeyword : ∀ start word,
      Akin C (keywordStatement r cx start word) (keywordStatement r' cx start word) :=
    fun _ _ => keywordStatement_akin hspec
  unfold statement
  refine .bind fun t => ?_
  dsimp only
  split <;> infer_instance

theorem AkinRules.produce : AkinRules C (produce r) (produce r') := by
  refine ⟨fun goal cx => ?_⟩
  cases goal with
  | assignment => exact (assignment_akin hspec cx).agrees
  | unary => exact (inferInstance : Akin C (unary r cx) (unary r' cx)).agrees
  | operand => exact (inferInstance : Akin C (operand r cx) (operand r' cx)).agrees
  | construct => exact (inferInstance : Akin C (construct r cx) (construct r' cx)).agrees
  | pattern => exact (inferInstance : Akin C (pattern r cx) (pattern r' cx)).agrees
  | statement => exact (statement_akin hspec).agrees

end

instance [AkinRules C r r'] : Akin C (program r) (program r') := by
  unfold program
  infer_instance

end Grammar
end ScriptBundler
