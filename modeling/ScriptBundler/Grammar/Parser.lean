import ScriptBundler.Grammar.Stream

/-!
# Parsers

A parser reads a token stream and keeps track of how far it has come.  It
answers with a value or with a failure, and either way with the progress made,
because the failure that got furthest is the one that is reported in the end.

An alternative that fails is undone, except for what it says about failures:
the furthest unexpected token, and the speculations that are known to fail.
-/

namespace ScriptBundler
namespace Grammar

/-- Flags that flow down into nested parts of the grammar. -/
structure Context where
  /-- `await` is an operator. -/
  inAsync : Bool
  /-- `yield` is an operator. -/
  inGenerator : Bool
  /-- `in` is not an operator. -/
  noIn : Bool
deriving DecidableEq, Repr

namespace Context

def top : Context :=
  ⟨false, false, false⟩

def function (isAsync isGenerator : Bool) : Context :=
  ⟨isAsync, isGenerator, false⟩

def allowIn (cx : Context) : Context :=
  { cx with noIn := false }

def forbidIn (cx : Context) : Context :=
  { cx with noIn := true }

end Context

inductive Speculation where
  | arrow | patternAssignment
deriving DecidableEq, Repr

structure Trial where
  index : Nat
  rule : Speculation
  context : Context
deriving DecidableEq, Repr

inductive Failure where
  | unexpected (token : Token)
  /-- The bound on nested calls was reached. -/
  | exhausted

structure Progress where
  /-- Index of the next token, which may be white space. -/
  pos : Nat
  /-- Offset after the last token read. -/
  lastEnd : Nat
  /-- The unexpected token that is furthest in the source. -/
  furthest : Option Token
  /-- Speculations that have failed. -/
  failed : List Trial

namespace Progress

def start : Progress :=
  ⟨0, 0, none, []⟩

/-- Keep an unexpected token if it is further than the one kept before. -/
def record (s : Progress) (t : Token) : Progress :=
  match s.furthest with
  | none => { s with furthest := some t }
  | some best => if best.span.start < t.span.start then { s with furthest := some t } else s

end Progress

abbrev Parser (α : Type) := ReaderT Stream (EStateM Failure Progress) α

namespace Parser

/-!
# Failing and trying

A parser that is tried goes back to where it started if it fails.  A trial that has
failed may be remembered, and is not made again then.
-/

def unexpectedAt {α : Type} (t : Token) : Parser α :=
  fun _ s => .error (.unexpected t) s

def exhausted {α : Type} : Parser α :=
  fun _ s => .error .exhausted s

def attempt {α : Type} (p : Parser α) : Parser (Option α) :=
  fun ts s =>
    match p ts s with
    | .ok a s' => .ok (some a) s'
    | .error (.unexpected t) s' =>
        .ok none { s'.record t with pos := s.pos, lastEnd := s.lastEnd }
    | .error .exhausted s' => .error .exhausted s'

/-- Try a speculation unless it is known to fail here. -/
def speculate {α : Type} (rule : Speculation) (cx : Context) (p : Parser α) :
    Parser (Option α) :=
  fun ts s =>
    let trial : Trial := ⟨(ts.skip s.pos).1, rule, cx⟩
    if ts.remembers && s.failed.contains trial then .ok none s
    else
      match attempt p ts s with
      | .ok none s' => .ok none { s' with failed := trial :: s'.failed }
      | result => result

def peek : Parser Token :=
  fun ts s => .ok (ts.token (ts.skip s.pos).1) s

def peekKind : Parser Token.Kind :=
  fun ts s => .ok (ts.token (ts.skip s.pos).1).kind s

def peekSecondKind : Parser Token.Kind :=
  fun ts s => .ok (ts.token (ts.skip ((ts.skip s.pos).1 + 1)).1).kind s

def newlineBefore : Parser Bool :=
  fun ts s => .ok (ts.skip s.pos).2 s

def nextIndex : Parser Nat :=
  fun ts s => .ok (ts.skip s.pos).1 s

def rawPeek : Parser Token :=
  fun ts s => .ok (ts.token s.pos) s

def rawPeekSecond : Parser Token :=
  fun ts s => .ok (ts.token (s.pos + 1)) s

def isAt (k : Token.Kind) : Parser Bool := do
  return decide ((← peekKind) = k)

def atMark (mark : Punctuator) : Parser Bool :=
  isAt (.punct mark)

def atKeyword (word : Keyword) : Parser Bool :=
  isAt (.keyword word)

def atWord (word : String) : Parser Bool := do
  let t ← peek
  return decide (t.kind = .identifier) && t.text == word

def unexpected {α : Type} : Parser α := do
  unexpectedAt (← peek)

/-- Read the next token that matters.  The end of the input is never read
past. -/
def advance : Parser Token :=
  fun ts s =>
    let i := (ts.skip s.pos).1
    let t := ts.token i
    if t.kind = .endOfInput then .ok t { s with pos := i }
    else .ok t { s with pos := i + 1, lastEnd := t.span.stop }

def rawAdvance : Parser Token :=
  fun ts s =>
    let t := ts.token s.pos
    if t.kind = .endOfInput then .ok t s
    else .ok t { s with pos := s.pos + 1, lastEnd := t.span.stop }

def eat (k : Token.Kind) : Parser Bool := do
  if ← isAt k then
    let _ ← advance
    return true
  else
    return false

def eatMark (mark : Punctuator) : Parser Bool :=
  eat (.punct mark)

def eatKeyword (word : Keyword) : Parser Bool :=
  eat (.keyword word)

def eatWord (word : String) : Parser Bool := do
  if ← atWord word then
    let _ ← advance
    return true
  else
    return false

def expect (k : Token.Kind) : Parser Token := do
  if ← isAt k then advance else unexpected

def expectMark (mark : Punctuator) : Parser Unit := do
  let _ ← expect (.punct mark)

def expectKeyword (word : Keyword) : Parser Unit := do
  let _ ← expect (.keyword word)

def expectWord (word : String) : Parser Unit := do
  if ← eatWord word then return () else unexpected

def identifier : Parser String := do
  return (← expect .identifier).text

/-- Whether a kind may name a variable.  `async` may: it is a keyword only in
front of a function. -/
def namesVariable (k : Token.Kind) : Bool :=
  decide (k = .identifier) || decide (k = .keyword .kwAsync)

def variableName : Parser String := do
  if namesVariable (← peekKind) then return (← advance).text else unexpected

def anyName : Parser String := do
  if (← peekKind).isName then return (← advance).text else unexpected

/-- The end of a statement: a semicolon, or its absence before a closing
brace, the end of the input or a line break. -/
def semicolon : Parser Unit := do
  if ← eatMark .semicolon then return ()
  let k ← peekKind
  if k = .punct .rBrace ∨ k = .endOfInput then return ()
  if ← newlineBefore then return ()
  unexpected

def here : Parser Nat := do
  return (← peek).span.start

def spanFrom (start : Nat) : Parser Span :=
  fun _ s => .ok ⟨start, max s.lastEnd start⟩ s

def rawIndex : Parser Nat :=
  fun _ s => .ok s.pos s

/-- The text of all tokens read since the one with a given index. -/
def textFrom (first : Nat) : Parser String :=
  fun ts s =>
    .ok (String.join ((ts.tokens.extract (min first s.pos) s.pos).toList.map (·.text))) s

/-! # Repetition

Each round of a repetition reads at least one token, so the number of tokens
bounds the number of rounds. -/

/-- Run a loop with a bound on its rounds that no loop over the tokens
reaches. -/
def bounded {α : Type} (loop : Nat → Parser α) : Parser α :=
  fun ts s => loop (ts.tokens.size + 1) ts s

def collectLoop {α : Type} (step : Parser (Option α)) (done : List α) : Nat → Parser (List α)
  | 0 => exhausted
  | n + 1 => do
      match ← step with
      | none => return done.reverse
      | some a => collectLoop step (a :: done) n

def collect {α : Type} (step : Parser (Option α)) : Parser (List α) :=
  bounded (collectLoop step [])

def collectWhile {α : Type} (more : Parser Bool) (item : Parser α) : Parser (List α) :=
  collect do
    if ← more then return some (← item) else return none

def commaListLoop {α : Type} (close : Punctuator) (hole : Option α) (item : Parser α)
    (done : List α) : Nat → Parser (List α)
  | 0 => exhausted
  | n + 1 => do
      if ← eatMark close then return done.reverse
      match hole with
      | some empty =>
          if ← eatMark .comma then
            return ← commaListLoop close hole item (empty :: done) n
      | none => pure ()
      let a ← item
      if ← eatMark .comma then
        commaListLoop close hole item (a :: done) n
      else
        expectMark close
        return (a :: done).reverse

/-- Items separated by commas up to a closing mark; the last comma may be
followed by the mark.  If `hole` is given, it stands for an item left out. -/
def commaList {α : Type} (close : Punctuator) (hole : Option α) (item : Parser α) :
    Parser (List α) :=
  bounded (commaListLoop close hole item [])

end Parser
end Grammar
end ScriptBundler
