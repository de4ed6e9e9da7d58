import ScriptBundler.Grammar.Statement
import ScriptBundler.Printer.Level

/-!
# How tokens spell trees

The grammar as a relation: which ranges of a token stream spell which trees.
The relation says what may be written, with white space and comments, commas
and semicolons that can be left out, and the levels of operators, but not how a
reading is found: there are no alternatives tried in order, no bounds on loops
and no memory of failures.
-/

namespace ScriptBundler
namespace Grammar

open Grammar.Parser

namespace Stream

variable (ts : Stream)

def nextAt (i : Nat) : Token :=
  ts.token (ts.skip i).1

def kindAt (i : Nat) : Token.Kind :=
  (ts.nextAt i).kind

def textAt (i : Nat) : String :=
  (ts.nextAt i).text

/-- The position behind the next token that matters. -/
def past (i : Nat) : Nat :=
  (ts.skip i).1 + 1

def breaksAt (i : Nat) : Bool :=
  (ts.skip i).2

def textBetween (i j : Nat) : String :=
  String.join ((ts.tokens.extract (min i j) j).toList.map (·.text))

inductive StringRest (quote : String) : Nat → Nat → Prop
  | close {i : Nat} : (ts.token i).kind = .stringQuote → (ts.token i).text = quote →
      StringRest quote i (i + 1)
  | quoted {i j : Nat} : (ts.token i).kind = .stringQuote → (ts.token i).text ≠ quote →
      StringRest quote (i + 1) j → StringRest quote i j
  | escape {i j : Nat} : (ts.token i).kind = .punct .escape →
      (ts.token (i + 1)).kind ≠ .endOfInput → StringRest quote (i + 2) j → StringRest quote i j
  | plain {i j : Nat} : (ts.token i).kind ≠ .endOfInput → (ts.token i).kind ≠ .newline →
      (ts.token i).kind ≠ .punct .escape → (ts.token i).kind ≠ .stringQuote →
      StringRest quote (i + 1) j → StringRest quote i j

inductive RegexRest : Bool → Nat → Nat → Prop
  | close {i : Nat} : (ts.token i).kind = .punct .slash → RegexRest false i i
  | escape {inClass : Bool} {i j : Nat} : (ts.token i).kind = .punct .escape →
      (ts.token (i + 1)).kind ≠ .endOfInput → (ts.token (i + 1)).kind ≠ .newline →
      RegexRest inClass (i + 2) j → RegexRest inClass i j
  | enter {inClass : Bool} {i j : Nat} : (ts.token i).kind = .punct .lBracket →
      RegexRest true (i + 1) j → RegexRest inClass i j
  | leave {inClass : Bool} {i j : Nat} : (ts.token i).kind = .punct .rBracket →
      RegexRest false (i + 1) j → RegexRest inClass i j
  | slash {i j : Nat} : (ts.token i).kind = .punct .slash →
      RegexRest true (i + 1) j → RegexRest true i j
  | plain {inClass : Bool} {i j : Nat} : (ts.token i).kind ≠ .endOfInput →
      (ts.token i).kind ≠ .newline → (ts.token i).kind ≠ .punct .escape →
      (ts.token i).kind ≠ .punct .lBracket → (ts.token i).kind ≠ .punct .rBracket →
      (ts.token i).kind ≠ .punct .slash → RegexRest inClass (i + 1) j → RegexRest inClass i j

inductive FlagsAt : String → Nat → Nat → Prop
  | some {i : Nat} : (ts.token i).kind = .identifier → FlagsAt (ts.token i).text i (i + 1)
  | none {i : Nat} : (ts.token i).kind ≠ .identifier → FlagsAt "" i i

end Stream

/-! # Readings

A reading of a stream can be asked for more than that the tokens fit: for
something about the places of the tokens it takes together, one token or a
whole literal, and about the spans of the nodes. -/

/-- A stream with what a reading of it has to keep to. -/
structure Reading extends Stream where
  /-- What holds of the positions in front of and behind what is taken
  together. -/
  admits : Nat → Nat → Prop
  /-- What holds of the span of a node between two positions. -/
  spans : Nat → Nat → Span → Prop
  /-- What holds of the span of an operator between the spans of its operands. -/
  joins : Span → Span → Span → Prop
  /-- Where the reading starts.  What was read in front of it is not known. -/
  origin : Nat

instance : Coe Reading Stream :=
  ⟨Reading.toStream⟩

namespace Stream

abbrev reading (ts : Stream) : Reading :=
  ⟨ts, fun _ _ => True, fun _ _ _ => True, fun _ _ _ => True, 0⟩

end Stream

namespace Reading

/-- A span from the next token that matters to the last token before a
position. -/
structure Spans (ts : Reading) (i j : Nat) (span : Span) : Prop where
  start : span.start = (ts.nextAt i).span.start
  stop : ts.origin < j → span.stop = max (ts.token (j - 1)).span.stop span.start

/-- Readings whose spans are those of their tokens. -/
abbrev placed (ts : Reading) : Reading :=
  ⟨ts, fun _ _ => True, ts.Spans, fun left right span => span = left.merge right, ts.origin⟩

end Reading

abbrev Stream.placed (ts : Stream) : Reading :=
  ts.reading.placed

namespace Reading

variable (ts : Reading)

def Takes (i j : Nat) : Prop :=
  ts.past i = j ∧ ts.admits i j

def Reads (k : Token.Kind) (i j : Nat) : Prop :=
  ts.kindAt i = k ∧ ts.Takes i j

def ReadsWord (word : String) (i j : Nat) : Prop :=
  ts.Reads .identifier i j ∧ ts.textAt i = word

inductive MayRead (k : Token.Kind) : Bool → Nat → Nat → Prop
  | yes {i j : Nat} : ts.Reads k i j → MayRead k true i j
  | no {i : Nat} : ts.kindAt i ≠ k → MayRead k false i i

inductive MayName : Option String → Nat → Nat → Prop
  | yes {name : String} {i j : Nat} : ts.ReadsWord name i j → MayName (some name) i j
  | no {i : Nat} : ts.kindAt i ≠ .identifier → MayName none i i

inductive Closes : Nat → Nat → Prop
  | mark {i j : Nat} : ts.Reads (.punct .semicolon) i j → Closes i j
  | brace {i : Nat} : ts.kindAt i = .punct .rBrace → Closes i i
  | input {i : Nat} : ts.kindAt i = .endOfInput → Closes i i
  | line {i : Nat} : ts.kindAt i ≠ .punct .semicolon → ts.breaksAt i = true → Closes i i

def StringAt (raw : String) (i j : Nat) : Prop :=
  ts.kindAt i = .stringQuote ∧ ts.StringRest (ts.textAt i) (ts.past i) j ∧
    ts.textBetween (ts.skip i).1 j = raw ∧ ts.admits i j

inductive RegexAt : String → String → Nat → Nat → Prop
  | slash {flags : String} {i k j : Nat} : ts.kindAt i = .punct .slash →
      ts.RegexRest false (ts.past i) k → ts.FlagsAt flags (k + 1) j → ts.admits i j →
      RegexAt (ts.textBetween (ts.past i) k) flags i j
  | slashEq {flags : String} {i k j : Nat} : ts.kindAt i = .punct .slashEq →
      ts.RegexRest false (ts.past i) k → ts.FlagsAt flags (k + 1) j → ts.admits i j →
      RegexAt ("=" ++ ts.textBetween (ts.past i) k) flags i j

inductive MethodStartAt : MethodStart → Nat → Nat → Prop
  | named {isGenerator : Bool} {i j : Nat} : followsName (ts.kindAt (ts.past i)) = true →
      ts.MayRead (.punct .star) isGenerator i j → MethodStartAt ⟨.method, false, isGenerator⟩ i j
  | get {i j : Nat} : followsName (ts.kindAt (ts.past i)) = false →
      ts.ReadsWord "get" i j → MethodStartAt ⟨.get, false, false⟩ i j
  | set {i j : Nat} : followsName (ts.kindAt (ts.past i)) = false →
      ts.ReadsWord "set" i j → MethodStartAt ⟨.set, false, false⟩ i j
  | async {isGenerator : Bool} {i k j : Nat} : followsName (ts.kindAt (ts.past i)) = false →
      ts.Reads (.keyword .kwAsync) i k → ts.MayRead (.punct .star) isGenerator k j →
      MethodStartAt ⟨.method, true, isGenerator⟩ i j
  | plain {isGenerator : Bool} {i j : Nat} :
      ¬ (ts.kindAt i = .identifier ∧ (ts.textAt i = "get" ∨ ts.textAt i = "set")) →
      ts.kindAt i ≠ .keyword .kwAsync →
      ts.MayRead (.punct .star) isGenerator i j → MethodStartAt ⟨.method, false, isGenerator⟩ i j

inductive StaticAt : Bool → Nat → Nat → Prop
  | yes {i j : Nat} : ts.Reads (.keyword .kwStatic) i j →
      followsStaticName (ts.kindAt j) = false → StaticAt true i j
  | no {i : Nat} : (ts.kindAt i = .keyword .kwStatic →
      followsStaticName (ts.kindAt (ts.past i)) = true) → StaticAt false i i

end Reading

/-! # Where an expression ends

An expression ends where the next token cannot go on with it.  What could go on
depends on the operand at its right end. -/

def startsTail : Token.Kind → Bool
  | .punct .dot | .punct .lBracket | .punct .lParen | .templateQuote => true
  | _ => false

def infixOp? (noIn : Bool) (k : Token.Kind) : Option BinaryOp :=
  if k = .keyword .kwIn ∧ noIn then none else BinaryOp.ofKind? k

/-- The operand at the right end of operators does not go on. -/
def OperandStops (ts : Stream) (j : Nat) : Expr → Prop
  | .unary _ _ arg | .await _ arg | .update _ _ true arg => OperandStops ts j arg
  | .update _ _ false _ => True
  | .binary _ _ _ right => OperandStops ts j right
  | _ => startsTail (ts.kindAt j) = false ∧
      (UpdateOp.ofKind? (ts.kindAt j) = none ∨ ts.breaksAt j = true)

def Stops (ts : Stream) (noIn : Bool) (j : Nat) : Expr → Prop
  | .arrowBlock _ _ _ _ | .yield _ _ none => True
  | .arrow _ _ _ value | .assign _ _ _ value | .assignPattern _ _ value
  | .yield _ _ (some value) => Stops ts noIn j value
  | .conditional _ _ _ no => Stops ts noIn j no ∧ AssignOp.ofKind? (ts.kindAt j) = none
  | e => OperandStops ts j e ∧ infixOp? noIn (ts.kindAt j) = none ∧
      ts.kindAt j ≠ .punct .question ∧ AssignOp.ofKind? (ts.kindAt j) = none

def Stream.ArrowAt (ts : Stream) (i : Nat) : Prop :=
  ts.kindAt i = .identifier ∧ ts.kindAt (ts.past i) = .punct .arrow ∧
    ts.breaksAt (ts.past i) = false

def endsInName : Expr → Bool
  | .ident _ _ => true
  | .arrow _ _ _ value | .assign _ _ _ value | .assignPattern _ _ value
  | .yield _ _ (some value) | .conditional _ _ _ value => endsInName value
  | _ => false

/-- What holds of an expression between commas that ends before a position,
where `in` is an operator or not. -/
abbrev Ending :=
  Bool → Nat → Expr → Prop

/-- An expression between commas does not go on, and it does not end in an
`async` that is the first word of an arrow function: the parameter may stand on
the next line. -/
def Halts (ts : Stream) : Ending := fun noIn j e =>
  Stops ts noIn j e ∧ (endsInName e = true → (ts.token (j - 1)).kind = .keyword .kwAsync →
    ¬ ts.ArrowAt j)

/-- An expression with commas ends before a position, and its last part is one
that may end there. -/
def SequenceStops (ts : Stream) (ending : Ending) (noIn : Bool) (j : Nat) : Expr → Prop
  | .sequence _ items => ts.kindAt j ≠ .punct .comma ∧ ∀ e ∈ items.getLast?, ending noIn j e
  | e => ts.kindAt j ≠ .punct .comma ∧ ending noIn j e

def isNewBare : Expr → Bool
  | .newBare _ _ => true
  | _ => false

def constructs : Expr → Bool
  | .dot _ object _ _ | .index _ object _ | .tagged _ object _ => constructs object
  | .call _ _ _ | .newBare _ _ => false
  | e => decide (e.level = Level.closed)

def IsObject (e : Expr) : Prop :=
  e.level = Level.closed ∧ isNewBare e = false

def Context.arrow (isAsync noIn : Bool) : Context :=
  { Context.function isAsync false with noIn := noIn }

def opensStatement (first second : Token.Kind) : Bool :=
  match first with
  | .identifier => decide (second = .punct .colon)
  | .punct .lBrace | .punct .semicolon => true
  | .keyword .kwAsync => decide (second = .keyword .kwFunction)
  | .keyword word =>
    [Keyword.kwThrow, .kwSwitch, .kwTry, .kwVar, .kwLet, .kwConst, .kwClass, .kwDo, .kwWhile,
      .kwIf, .kwFor, .kwExport, .kwImport, .kwFunction, .kwReturn, .kwBreak, .kwContinue,
      .kwDebugger, .kwWith].contains word
  | _ => false

/-!
# Phrases

There is one rule for each way to write a phrase.  The rules ask for the spans of
nodes, and for how an expression ends.
-/

/-- The sorts of lists with commas between their items. -/
inductive ItemClass where
  | param | arg | element | property | arrayElement | objectElement | importName | exportName

namespace ItemClass

abbrev Item : ItemClass → Type
  | param => Param
  | arg => Expr
  | element => Option Expr
  | property => Property
  | arrayElement => ArrayElement
  | objectElement => ObjectElement
  | importName => ImportSpecifier
  | exportName => ExportSpecifier

def close : ItemClass → Punctuator
  | param | arg => .rParen
  | element | arrayElement => .rBracket
  | property | objectElement | importName | exportName => .rBrace

def hole : (c : ItemClass) → Option c.Item
  | element => some none
  | arrayElement => some .hole
  | param | arg | property | objectElement | importName | exportName => none

end ItemClass

/-- What a range of tokens can spell. -/
inductive Phrase where
  | expr (cx : Context) (e : Expr)
  | others (cx : Context) (es : List Expr)
  | items (cx : Context) (c : ItemClass) (xs : List c.Item)
  | item (cx : Context) (c : ItemClass) (x : c.Item)
  | key (cx : Context) (k : PropertyKey)
  | binding (cx : Context) (b : Binding)
  | value (cx : Context) (v : Option Expr)
  | template (cx : Context) (raw : String)
  | templateRest (cx : Context)
  | substitution (cx : Context)
  | func (f : Func)
  | funcRest (f : Func)
  | callable (cx : Context) (params : List Param) (body : List Stmt)
  | arrowHead (isAsync : Bool) (params : List Param)
  | classRest (cx : Context) (name : Option String) (parent : Option Expr)
      (members : List ClassMember)
  | parent (cx : Context) (e : Option Expr)
  | members (cx : Context) (ms : List ClassMember)
  | member (cx : Context) (m : ClassMember)
  | block (cx : Context) (body : List Stmt)
  | stmts (cx : Context) (stop : List Token.Kind) (body : List Stmt)
  | stmt (cx : Context) (s : Stmt)
  | condition (cx : Context) (e : Expr)
  | optional (cx : Context) (e : Option Expr)
  | decls (cx : Context) (ds : List Declarator)
  | decl (cx : Context) (d : Declarator)
  | forLeft (cx : Context) (left : ForInit)
  | forInit (cx : Context) (init : ForInit)
  | cases (cx : Context) (cs : List SwitchCase)
  | case (cx : Context) (c : SwitchCase)
  | handler (cx : Context) (param : Option Binding) (body : List Stmt)
  | exported (cx : Context) (e : Expr)
  | importList (specifiers : List ImportSpecifier)
  | importClause (specifiers : List ImportSpecifier)

def caseStops : List Token.Kind :=
  [.keyword .kwCase, .keyword .kwDefault, .punct .rBrace]

section
variable (ts : Reading) (H : Ending)

/-- The tokens of a range spell a phrase.  Where an expression is ended by what
follows it, the relation is asked for how. -/
inductive Derives : Phrase → Nat → Nat → Prop
  /- Operands -/
  | null {cx sp i j} : ts.Reads (.keyword .kwNull) i j → ts.spans i j sp →
      Derives (.expr cx (.null sp)) i j
  | trueWord {cx sp i j} : ts.Reads (.keyword .kwTrue) i j → ts.spans i j sp →
      Derives (.expr cx (.bool sp true)) i j
  | falseWord {cx sp i j} : ts.Reads (.keyword .kwFalse) i j → ts.spans i j sp →
      Derives (.expr cx (.bool sp false)) i j
  | this {cx sp i j} : ts.Reads (.keyword .kwThis) i j → ts.spans i j sp →
      Derives (.expr cx (.this sp)) i j
  | super {cx sp i j} : ts.Reads (.keyword .kwSuper) i j → ts.spans i j sp →
      Derives (.expr cx (.super sp)) i j
  | number {cx sp raw i j} : ts.Reads .number i j → ts.textAt i = raw →
      (ts.token j).kind ≠ .identifier → (ts.token j).kind ≠ .number → ts.spans i j sp →
      Derives (.expr cx (.number sp raw)) i j
  | string {cx sp raw i j} : ts.StringAt raw i j → ts.spans i j sp →
      Derives (.expr cx (.string sp raw)) i j
  | regex {cx sp pattern flags i j} : ts.RegexAt pattern flags i j → ts.spans i j sp →
      Derives (.expr cx (.regex sp pattern flags)) i j
  | quasi {cx sp raw i j} : Derives (.template cx raw) i j → ts.spans i j sp →
      Derives (.expr cx (.template sp raw)) i j
  | ident {cx sp name i j} : ts.ReadsWord name i j → ts.spans i j sp →
      Derives (.expr cx (.ident sp name)) i j
  | asyncIdent {cx sp name i j} : ts.Reads (.keyword .kwAsync) i j → ts.textAt i = name →
      ts.kindAt j ≠ .keyword .kwFunction → ts.spans i j sp → Derives (.expr cx (.ident sp name)) i j
  | array {cx sp elements i i₁ j} : ts.Reads (.punct .lBracket) i i₁ →
      Derives (.items cx.allowIn .element elements) i₁ j → ts.spans i j sp →
      Derives (.expr cx (.array sp elements)) i j
  | object {cx sp properties i i₁ j} : ts.Reads (.punct .lBrace) i i₁ →
      Derives (.items cx.allowIn .property properties) i₁ j → ts.spans i j sp →
      Derives (.expr cx (.object sp properties)) i j
  | function {cx sp f i j} : Derives (.func f) i j → ts.spans i j sp →
      Derives (.expr cx (.function sp f)) i j
  | class {cx sp name parent members i j} : Derives (.classRest cx name parent members) i j →
      ts.spans i j sp → Derives (.expr cx (.class sp name parent members)) i j
  | paren {cx sp inner i i₁ i₂ j} : ts.Reads (.punct .lParen) i i₁ →
      Derives (.expr cx.allowIn inner) i₁ i₂ → ts.Reads (.punct .rParen) i₂ j → ts.spans i j sp →
      Derives (.expr cx (.paren sp inner)) i j
  | dot {cx sp sp' object name i i₁ i₂ j} : Derives (.expr cx object) i i₁ → IsObject object →
      ts.Reads (.punct .dot) i₁ i₂ → (ts.kindAt i₂).isName = true → ts.textAt i₂ = name →
      ts.Takes i₂ j → ts.spans i₂ j sp' → ts.spans i j sp →
      Derives (.expr cx (.dot sp object sp' name)) i j
  | index {cx sp object property i i₁ i₂ i₃ j} : Derives (.expr cx object) i i₁ → IsObject object →
      ts.Reads (.punct .lBracket) i₁ i₂ → Derives (.expr cx.allowIn property) i₂ i₃ →
      ts.Reads (.punct .rBracket) i₃ j → ts.spans i j sp →
      Derives (.expr cx (.index sp object property)) i j
  | call {cx sp callee args i i₁ i₂ j} : Derives (.expr cx callee) i i₁ → IsObject callee →
      ts.Reads (.punct .lParen) i₁ i₂ → Derives (.items cx.allowIn .arg args) i₂ j →
      ts.spans i j sp → Derives (.expr cx (.call sp callee args)) i j
  | tagged {cx sp tag raw i i₁ j} : Derives (.expr cx tag) i i₁ → IsObject tag →
      Derives (.template cx raw) i₁ j → ts.spans i j sp →
      Derives (.expr cx (.tagged sp tag raw)) i j
  | new {cx sp callee args i i₁ i₂ i₃ j} : ts.Reads (.keyword .kwNew) i i₁ →
      Derives (.expr cx callee) i₁ i₂ → constructs callee = true → ts.Reads (.punct .lParen) i₂ i₃ →
      Derives (.items cx.allowIn .arg args) i₃ j → ts.spans i j sp →
      Derives (.expr cx (.new sp callee args)) i j
  | newBare {cx sp callee i i₁ j} : ts.Reads (.keyword .kwNew) i i₁ →
      Derives (.expr cx callee) i₁ j → constructs callee = true ∨ isNewBare callee = true →
      startsTail (ts.kindAt j) = false → ts.spans i j sp →
      Derives (.expr cx (.newBare sp callee)) i j
  /- Operators -/
  | unary {cx sp k op arg i i₁ j} : ts.Reads k i i₁ → UnaryOp.ofKind? k = some op →
      Derives (.expr cx arg) i₁ j → Level.unary ≤ arg.level → ts.spans i j sp →
      Derives (.expr cx (.unary sp op arg)) i j
  | await {cx sp arg i i₁ j} : ts.Reads (.keyword .kwAwait) i i₁ → cx.inAsync = true →
      Derives (.expr cx arg) i₁ j → Level.unary ≤ arg.level → ts.spans i j sp →
      Derives (.expr cx (.await sp arg)) i j
  | leading {cx sp k op arg i i₁ j} : ts.Reads k i i₁ → UpdateOp.ofKind? k = some op →
      Derives (.expr cx arg) i₁ j → Level.unary ≤ arg.level → ts.spans i j sp →
      Derives (.expr cx (.update sp op true arg)) i j
  | trailing {cx sp k op arg i i₁ j} : Derives (.expr cx arg) i i₁ → arg.level = Level.closed →
      ts.breaksAt i₁ = false → ts.Reads k i₁ j → UpdateOp.ofKind? k = some op → ts.spans i j sp →
      Derives (.expr cx (.update sp op false arg)) i j
  | binary {cx sp k op left right i i₁ i₂ j} : Derives (.expr cx left) i i₁ →
      op.leftLevel ≤ left.level → ts.Reads k i₁ i₂ → infixOp? cx.noIn k = some op →
      Derives (.expr cx right) i₂ j → op.rightLevel ≤ right.level →
      ts.joins left.span right.span sp → Derives (.expr cx (.binary sp op left right)) i j
  | conditional {cx sp test yes no i i₁ i₂ i₃ i₄ j} : Derives (.expr cx test) i i₁ →
      Level.conditional < test.level → ts.Reads (.punct .question) i₁ i₂ →
      Derives (.expr cx.allowIn yes) i₂ i₃ → Level.assignment ≤ yes.level →
      ts.Reads (.punct .colon) i₃ i₄ → Derives (.expr cx no) i₄ j → Level.assignment ≤ no.level →
      ts.spans i j sp → Derives (.expr cx (.conditional sp test yes no)) i j
  | assign {cx sp k op target value i i₁ i₂ j} : Derives (.expr cx target) i i₁ →
      target.isAssignable = true → ts.Reads k i₁ i₂ → AssignOp.ofKind? k = some op →
      Derives (.expr cx value) i₂ j → Level.assignment ≤ value.level → ts.spans i j sp →
      Derives (.expr cx (.assign sp op target value)) i j
  | assignPattern {cx sp k target value i i₁ i₂ j} : Derives (.binding cx.allowIn target) i i₁ →
      ts.kindAt i = .punct k → ts.Reads (.punct .eq) i₁ i₂ → Derives (.expr cx value) i₂ j →
      Level.assignment ≤ value.level → ts.spans i j sp →
      Derives (.expr cx (.assignPattern sp target value)) i j
  | arrow {cx sp isAsync params body i i₁ j} : Derives (.arrowHead isAsync params) i i₁ →
      ts.kindAt i₁ ≠ .punct .lBrace → Derives (.expr (Context.arrow isAsync cx.noIn) body) i₁ j →
      Level.assignment ≤ body.level → ts.spans i j sp →
      Derives (.expr cx (.arrow sp isAsync params body)) i j
  | arrowBlock {cx sp isAsync params body i i₁ j} : Derives (.arrowHead isAsync params) i i₁ →
      Derives (.block (Context.function isAsync false) body) i₁ j → ts.spans i j sp →
      Derives (.expr cx (.arrowBlock sp isAsync params body)) i j
  | delegate {cx sp arg i i₁ i₂ j} : ts.Reads (.keyword .kwYield) i i₁ → cx.inGenerator = true →
      ts.breaksAt i₁ = false → ts.Reads (.punct .star) i₁ i₂ → Derives (.expr cx arg) i₂ j →
      Level.assignment ≤ arg.level → ts.spans i j sp →
      Derives (.expr cx (.yield sp true (some arg))) i j
  | yieldValue {cx sp arg i i₁ j} : ts.Reads (.keyword .kwYield) i i₁ → cx.inGenerator = true →
      ts.breaksAt i₁ = false → Derives (.expr cx arg) i₁ j → Level.assignment ≤ arg.level →
      ts.spans i j sp → Derives (.expr cx (.yield sp false (some arg))) i j
  | yieldNothing {cx sp i j} : ts.Reads (.keyword .kwYield) i j → cx.inGenerator = true →
      ts.breaksAt j = true ∨ endsYield (ts.kindAt j) = true → ts.spans i j sp →
      Derives (.expr cx (.yield sp false none)) i j
  | sequence {cx sp first others i i₁ j} : Derives (.expr cx first) i i₁ →
      Level.assignment ≤ first.level → Derives (.others cx others) i₁ j → ts.spans i j sp →
      Derives (.expr cx (.sequence sp (first :: others))) i j
  | other {cx e i i₁ j} : ts.Reads (.punct .comma) i i₁ → Derives (.expr cx e) i₁ j →
      Level.assignment ≤ e.level → Derives (.others cx [e]) i j
  | moreOthers {cx e es i i₁ i₂ j} : ts.Reads (.punct .comma) i i₁ → Derives (.expr cx e) i₁ i₂ →
      Level.assignment ≤ e.level → Derives (.others cx es) i₂ j → Derives (.others cx (e :: es)) i j
  /- Lists with commas -/
  | noItems {cx c i j} : ts.Reads (.punct c.close) i j → Derives (.items cx c []) i j
  | hole {cx c x xs i i₁ j} : c.hole = some x → ts.Reads (.punct .comma) i i₁ →
      Derives (.items cx c xs) i₁ j → Derives (.items cx c (x :: xs)) i j
  | moreItems {cx c x xs i i₁ i₂ j} : Derives (.item cx c x) i i₁ → ts.Reads (.punct .comma) i₁ i₂ →
      Derives (.items cx c xs) i₂ j → Derives (.items cx c (x :: xs)) i j
  | lastItem {cx c x i i₁ j} : Derives (.item cx c x) i i₁ → ts.Reads (.punct c.close) i₁ j →
      Derives (.items cx c [x]) i j
  | spreadArg {cx sp e i i₁ j} : ts.Reads (.punct .spread) i i₁ → Derives (.expr cx e) i₁ j →
      Level.assignment ≤ e.level → ts.spans i j sp → Derives (.item cx .arg (.spread sp e)) i j
  | plainArg {cx e i j} : Derives (.expr cx e) i j → Level.assignment ≤ e.level →
      Derives (.item cx .arg e) i j
  | element {cx e i j} : Derives (.item cx .arg e) i j → Derives (.item cx .element (some e)) i j
  | spreadProperty {cx e i i₁ j} : ts.Reads (.punct .spread) i i₁ → Derives (.expr cx e) i₁ j →
      Level.assignment ≤ e.level → Derives (.item cx .property (.spread e)) i j
  | methodProperty {cx sp kind isAsync isGenerator key params body i i₁ i₂ j} :
      ts.MethodStartAt ⟨kind, isAsync, isGenerator⟩ i i₁ → Derives (.key cx key) i₁ i₂ →
      Derives (.callable (Context.function isAsync isGenerator) params body) i₂ j →
      ts.spans i j sp →
      Derives (.item cx .property
        (.method kind key ⟨sp, none, isAsync, isGenerator, params, body⟩)) i j
  | pair {cx key e i i₁ i₂ i₃ j} : ts.MethodStartAt ⟨.method, false, false⟩ i i₁ →
      Derives (.key cx key) i₁ i₂ → ts.Reads (.punct .colon) i₂ i₃ → Derives (.expr cx e) i₃ j →
      Level.assignment ≤ e.level → Derives (.item cx .property (.pair key e)) i j
  | shorthand {cx name i j} : ts.MethodStartAt ⟨.method, false, false⟩ i i → ts.ReadsWord name i j →
      ts.kindAt j ≠ .punct .lParen → ts.kindAt j ≠ .punct .colon →
      Derives (.item cx .property (.shorthand name)) i j
  | arrayRest {cx b i i₁ j} : ts.Reads (.punct .spread) i i₁ → Derives (.binding cx b) i₁ j →
      Derives (.item cx .arrayElement (.rest b)) i j
  | arrayItem {cx b v i i₁ j} : Derives (.binding cx b) i i₁ → Derives (.value cx v) i₁ j →
      Derives (.item cx .arrayElement (.item b v)) i j
  | objectRest {cx sp name i i₁ j} : ts.Reads (.punct .spread) i i₁ → ts.ReadsWord name i₁ j →
      ts.spans i₁ j sp → Derives (.item cx .objectElement (.rest sp name)) i j
  | objectPair {cx key b v i i₁ i₂ i₃ j} : Derives (.key cx key) i i₁ →
      ts.Reads (.punct .colon) i₁ i₂ → Derives (.binding cx b) i₂ i₃ → Derives (.value cx v) i₃ j →
      Derives (.item cx .objectElement (.pair key b v)) i j
  | objectShort {cx sp name v i i₁ j} : ts.ReadsWord name i i₁ → ts.kindAt i₁ ≠ .punct .colon →
      Derives (.value cx v) i₁ j → ts.spans i i₁ sp →
      Derives (.item cx .objectElement (.shorthand sp name v)) i j
  | restParam {cx sp b i i₁ j} : ts.Reads (.punct .spread) i i₁ → Derives (.binding cx b) i₁ j →
      ts.spans i j sp → Derives (.item cx .param (.rest sp b)) i j
  | plainParam {cx sp b v i i₁ j} : Derives (.binding cx b) i i₁ → Derives (.value cx v) i₁ j →
      ts.spans i j sp → Derives (.item cx .param (.plain sp b v)) i j
  | imported {cx sp name i j} : (ts.kindAt i).isName = true → ts.textAt i = name → ts.Takes i j →
      ¬ (ts.kindAt j = .identifier ∧ ts.textAt j = "as") →
      Derives (.item cx .importName (.named sp name name)) i j
  | importedAs {cx sp imported name i i₁ i₂ j} : (ts.kindAt i).isName = true →
      ts.textAt i = imported → ts.Takes i i₁ → ts.ReadsWord "as" i₁ i₂ →
      namesVariable (ts.kindAt i₂) = true → ts.textAt i₂ = name → ts.Takes i₂ j →
      Derives (.item cx .importName (.named sp imported name)) i j
  | exportedName {cx sp name i j} : (ts.kindAt i).isName = true → ts.textAt i = name →
      ts.Takes i j → ¬ (ts.kindAt j = .identifier ∧ ts.textAt j = "as") →
      Derives (.item cx .exportName ⟨sp, name, name⟩) i j
  | exportedAs {cx sp name exported i i₁ i₂ j} : (ts.kindAt i).isName = true → ts.textAt i = name →
      ts.Takes i i₁ → ts.ReadsWord "as" i₁ i₂ → (ts.kindAt i₂).isName = true →
      ts.textAt i₂ = exported → ts.Takes i₂ j →
      Derives (.item cx .exportName ⟨sp, name, exported⟩) i j
  /- Names and patterns -/
  | keyName {cx name i j} : (ts.kindAt i).isName = true → ts.textAt i = name → ts.Takes i j →
      Derives (.key cx (.ident name)) i j
  | keyString {cx raw i j} : ts.StringAt raw i j → Derives (.key cx (.string raw)) i j
  | keyNumber {cx raw i j} : ts.Reads .number i j → ts.textAt i = raw →
      Derives (.key cx (.number raw)) i j
  | keyComputed {cx e i i₁ i₂ j} : ts.Reads (.punct .lBracket) i i₁ → Derives (.expr cx e) i₁ i₂ →
      Level.assignment ≤ e.level → ts.Reads (.punct .rBracket) i₂ j →
      Derives (.key cx (.computed e)) i j
  | bound {cx sp name i j} : namesVariable (ts.kindAt i) = true → ts.textAt i = name →
      ts.Takes i j → ts.spans i j sp → Derives (.binding cx (.ident sp name)) i j
  | boundArray {cx sp elements i i₁ j} : ts.Reads (.punct .lBracket) i i₁ →
      Derives (.items cx .arrayElement elements) i₁ j → ts.spans i j sp →
      Derives (.binding cx (.array sp elements)) i j
  | boundObject {cx sp properties i i₁ j} : ts.Reads (.punct .lBrace) i i₁ →
      Derives (.items cx .objectElement properties) i₁ j → ts.spans i j sp →
      Derives (.binding cx (.object sp properties)) i j
  | noValue {cx i} : ts.kindAt i ≠ .punct .eq → Derives (.value cx none) i i
  | value {cx e i i₁ j} : ts.Reads (.punct .eq) i i₁ → Derives (.expr cx e) i₁ j →
      Level.assignment ≤ e.level → H cx.noIn j e → Derives (.value cx (some e)) i j
  /- Templates -/
  | template {cx raw i j} : ts.kindAt i = .templateQuote →
      Derives (.templateRest cx) (ts.past i) j → ts.textBetween (ts.skip i).1 j = raw →
      ts.admits i j → Derives (.template cx raw) i j
  | templateClose {cx i} : (ts.token i).kind = .templateQuote → Derives (.templateRest cx) i (i + 1)
  | templateEscape {cx i j} : (ts.token i).kind = .punct .escape →
      (ts.token (i + 1)).kind ≠ .endOfInput →
      ¬ ((ts.token (i + 1)).kind = .identifier ∧ 1 < (ts.token (i + 1)).text.length ∧
        (ts.token (i + 1)).endsWith '$' = true ∧ (ts.token (i + 2)).kind = .punct .lBrace) →
      Derives (.templateRest cx) (i + 2) j → Derives (.templateRest cx) i j
  | templateEscapeThen {cx i i₁ j} : (ts.token i).kind = .punct .escape →
      (ts.token (i + 1)).kind = .identifier → 1 < (ts.token (i + 1)).text.length →
      (ts.token (i + 1)).endsWith '$' = true → (ts.token (i + 2)).kind = .punct .lBrace →
      Derives (.substitution cx) (i + 3) i₁ → Derives (.templateRest cx) i₁ j →
      Derives (.templateRest cx) i j
  | templateThen {cx i i₁ j} : (ts.token i).kind = .identifier → (ts.token i).endsWith '$' = true →
      (ts.token (i + 1)).kind = .punct .lBrace → Derives (.substitution cx) (i + 2) i₁ →
      Derives (.templateRest cx) i₁ j → Derives (.templateRest cx) i j
  | templatePlain {cx i j} : (ts.token i).kind ≠ .endOfInput →
      (ts.token i).kind ≠ .punct .escape → (ts.token i).kind ≠ .templateQuote →
      ¬ ((ts.token i).kind = .identifier ∧ (ts.token i).endsWith '$' = true ∧
        (ts.token (i + 1)).kind = .punct .lBrace) →
      Derives (.templateRest cx) (i + 1) j → Derives (.templateRest cx) i j
  | substitution {cx e i i₁ j} : Derives (.expr cx.allowIn e) i i₁ →
      ts.Reads (.punct .rBrace) i₁ j → Derives (.substitution cx) i j
  /- Functions and classes -/
  | func {f i j} : f.isAsync = false → Derives (.funcRest f) i j → ts.spans i j f.span →
      Derives (.func f) i j
  | asyncFunc {f i i₁ j} : f.isAsync = true → ts.Reads (.keyword .kwAsync) i i₁ →
      Derives (.funcRest f) i₁ j → ts.spans i j f.span ∨ ts.spans i₁ j f.span →
      Derives (.func f) i j
  | funcRest {sp name isAsync isGenerator params body i i₁ i₂ i₃ j} :
      ts.Reads (.keyword .kwFunction) i i₁ → ts.MayRead (.punct .star) isGenerator i₁ i₂ →
      ts.MayName name i₂ i₃ →
      Derives (.callable (Context.function isAsync isGenerator) params body) i₃ j →
      Derives (.funcRest ⟨sp, name, isAsync, isGenerator, params, body⟩) i j
  | callable {cx params body i i₁ i₂ j} : ts.Reads (.punct .lParen) i i₁ →
      Derives (.items cx .param params) i₁ i₂ → Derives (.block cx body) i₂ j →
      Derives (.callable cx params body) i j
  | arrowName {isAsync sp sp' name i i₁ i₂ j} : ts.MayRead (.keyword .kwAsync) isAsync i i₁ →
      ts.ReadsWord name i₁ i₂ → ts.breaksAt i₂ = false → ts.Reads (.punct .arrow) i₂ j →
      ts.spans i₁ i₂ sp → ts.spans i₁ i₂ sp' →
      Derives (.arrowHead isAsync [.plain sp (.ident sp' name) none]) i j
  | arrowParams {isAsync params i i₁ i₂ i₃ j} : ts.MayRead (.keyword .kwAsync) isAsync i i₁ →
      ts.Reads (.punct .lParen) i₁ i₂ →
      Derives (.items (Context.function isAsync false) .param params) i₂ i₃ →
      ts.breaksAt i₃ = false → ts.Reads (.punct .arrow) i₃ j →
      Derives (.arrowHead isAsync params) i j
  | classRest {cx name parent members i i₁ i₂ i₃ i₄ j} : ts.Reads (.keyword .kwClass) i i₁ →
      ts.MayName name i₁ i₂ → Derives (.parent cx parent) i₂ i₃ → ts.Reads (.punct .lBrace) i₃ i₄ →
      Derives (.members cx.allowIn members) i₄ j → Derives (.classRest cx name parent members) i j
  | noParent {cx i} : ts.kindAt i ≠ .keyword .kwExtends → Derives (.parent cx none) i i
  | parent {cx e i i₁ j} : ts.Reads (.keyword .kwExtends) i i₁ → Derives (.expr cx e) i₁ j →
      e.level = Level.closed → Derives (.parent cx (some e)) i j
  | noMembers {cx i j} : ts.Reads (.punct .rBrace) i j → Derives (.members cx []) i j
  | skipMember {cx ms i i₁ j} : ts.Reads (.punct .semicolon) i i₁ → Derives (.members cx ms) i₁ j →
      Derives (.members cx ms) i j
  | moreMembers {cx m ms i i₁ j} : Derives (.member cx m) i i₁ → Derives (.members cx ms) i₁ j →
      Derives (.members cx (m :: ms)) i j
  | method {cx sp sp' kind isStatic isAsync isGenerator key params body i i₁ i₂ i₃ j} :
      ts.StaticAt isStatic i i₁ → ts.MethodStartAt ⟨kind, isAsync, isGenerator⟩ i₁ i₂ →
      Derives (.key cx key) i₂ i₃ →
      Derives (.callable (Context.function isAsync isGenerator) params body) i₃ j →
      ts.spans i j sp' → ts.spans i j sp →
      Derives (.member cx
        (.method sp kind isStatic key ⟨sp', none, isAsync, isGenerator, params, body⟩)) i j
  | field {cx sp isStatic key v i i₁ i₂ i₃ i₄ j} : ts.StaticAt isStatic i i₁ →
      ts.MethodStartAt ⟨.method, false, false⟩ i₁ i₂ → Derives (.key cx key) i₂ i₃ →
      ts.kindAt i₃ ≠ .punct .lParen → Derives (.value cx v) i₃ i₄ → ts.Closes i₄ j →
      ts.spans i j sp → Derives (.member cx (.field sp isStatic key v)) i j
  /- Statements -/
  | block {cx body i i₁ i₂ j} : ts.Reads (.punct .lBrace) i i₁ →
      Derives (.stmts cx [.punct .rBrace] body) i₁ i₂ → ts.Reads (.punct .rBrace) i₂ j →
      Derives (.block cx body) i j
  | noStmts {cx stop i} : ts.kindAt i = .endOfInput ∨ ts.kindAt i ∈ stop →
      Derives (.stmts cx stop []) i i
  | moreStmts {cx stop s body i i₁ j} : ¬ (ts.kindAt i = .endOfInput ∨ ts.kindAt i ∈ stop) →
      Derives (.stmt cx s) i i₁ → Derives (.stmts cx stop body) i₁ j →
      Derives (.stmts cx stop (s :: body)) i j
  | condition {cx e i i₁ i₂ j} : ts.Reads (.punct .lParen) i i₁ →
      Derives (.expr cx.allowIn e) i₁ i₂ → ts.Reads (.punct .rParen) i₂ j →
      Derives (.condition cx e) i j
  | left_out {cx i} : Derives (.optional cx none) i i
  | given {cx e i j} : Derives (.expr cx e) i j → Derives (.optional cx (some e)) i j
  | lastDecl {cx d i j} : Derives (.decl cx d) i j → ts.kindAt j ≠ .punct .comma →
      Derives (.decls cx [d]) i j
  | moreDecls {cx d ds i i₁ i₂ j} : Derives (.decl cx d) i i₁ → ts.Reads (.punct .comma) i₁ i₂ →
      Derives (.decls cx ds) i₂ j → Derives (.decls cx (d :: ds)) i j
  | decl {cx sp b v i i₁ j} : Derives (.binding cx.allowIn b) i i₁ → Derives (.value cx v) i₁ j →
      ts.spans i j sp → Derives (.decl cx ⟨sp, b, v⟩) i j
  | labeled {cx sp label body i i₁ i₂ j} : ts.ReadsWord label i i₁ →
      ts.Reads (.punct .colon) i₁ i₂ → Derives (.stmt cx body) i₂ j → ts.spans i j sp →
      Derives (.stmt cx (.labeled sp label body)) i j
  | exprStmt {cx sp e i i₁ j} : opensStatement (ts.kindAt i) (ts.kindAt (ts.past i)) = false →
      Derives (.expr cx e) i i₁ → SequenceStops ts H cx.noIn i₁ e → ts.Closes i₁ j →
      ts.spans i j sp → Derives (.stmt cx (.expr sp e)) i j
  | blockStmt {cx sp body i j} : Derives (.block cx body) i j → ts.spans i j sp →
      Derives (.stmt cx (.block sp body)) i j
  | empty {cx sp i j} : ts.Reads (.punct .semicolon) i j → ts.spans i j sp →
      Derives (.stmt cx (.empty sp)) i j
  | throw {cx sp e i i₁ i₂ j} : ts.Reads (.keyword .kwThrow) i i₁ → ts.breaksAt i₁ = false →
      Derives (.expr cx e) i₁ i₂ → SequenceStops ts H cx.noIn i₂ e → ts.Closes i₂ j →
      ts.spans i j sp → Derives (.stmt cx (.throw sp e)) i j
  | switch {cx sp e cs i i₁ i₂ i₃ j} : ts.Reads (.keyword .kwSwitch) i i₁ →
      Derives (.condition cx e) i₁ i₂ → ts.Reads (.punct .lBrace) i₂ i₃ →
      Derives (.cases cx cs) i₃ j → ts.spans i j sp → Derives (.stmt cx (.switch sp e cs)) i j
  | noCases {cx i j} : ts.Reads (.punct .rBrace) i j → Derives (.cases cx []) i j
  | moreCases {cx c cs i i₁ j} : Derives (.case cx c) i i₁ → Derives (.cases cx cs) i₁ j →
      Derives (.cases cx (c :: cs)) i j
  | testCase {cx sp e body i i₁ i₂ i₃ j} : ts.Reads (.keyword .kwCase) i i₁ →
      Derives (.expr cx e) i₁ i₂ → ts.Reads (.punct .colon) i₂ i₃ →
      Derives (.stmts cx caseStops body) i₃ j → ts.spans i j sp →
      Derives (.case cx ⟨sp, some e, body⟩) i j
  | defaultCase {cx sp body i i₁ i₂ j} : ts.Reads (.keyword .kwDefault) i i₁ →
      ts.Reads (.punct .colon) i₁ i₂ → Derives (.stmts cx caseStops body) i₂ j → ts.spans i j sp →
      Derives (.case cx ⟨sp, none, body⟩) i j
  | tryCatch {cx sp sp' body param handler i i₁ i₂ j} : ts.Reads (.keyword .kwTry) i i₁ →
      Derives (.block cx body) i₁ i₂ → Derives (.handler cx param handler) i₂ j →
      ts.kindAt j ≠ .keyword .kwFinally → ts.spans i₂ j sp' → ts.spans i j sp →
      Derives (.stmt cx (.tryCatch sp body sp' param handler)) i j
  | tryFinally {cx sp body finalizer i i₁ i₂ i₃ j} : ts.Reads (.keyword .kwTry) i i₁ →
      Derives (.block cx body) i₁ i₂ → ts.Reads (.keyword .kwFinally) i₂ i₃ →
      Derives (.block cx finalizer) i₃ j → ts.spans i j sp →
      Derives (.stmt cx (.tryFinally sp body finalizer)) i j
  | tryCatchFinally {cx sp sp' body param handler finalizer i i₁ i₂ i₃ i₄ j} :
      ts.Reads (.keyword .kwTry) i i₁ → Derives (.block cx body) i₁ i₂ →
      Derives (.handler cx param handler) i₂ i₃ → ts.Reads (.keyword .kwFinally) i₃ i₄ →
      Derives (.block cx finalizer) i₄ j → ts.spans i₂ i₃ sp' → ts.spans i j sp →
      Derives (.stmt cx (.tryCatchFinally sp body sp' param handler finalizer)) i j
  | handler {cx b body i i₁ i₂ i₃ i₄ j} : ts.Reads (.keyword .kwCatch) i i₁ →
      ts.Reads (.punct .lParen) i₁ i₂ → Derives (.binding cx.allowIn b) i₂ i₃ →
      ts.Reads (.punct .rParen) i₃ i₄ → Derives (.block cx body) i₄ j →
      Derives (.handler cx (some b) body) i j
  | bareHandler {cx body i i₁ j} : ts.Reads (.keyword .kwCatch) i i₁ →
      Derives (.block cx body) i₁ j → Derives (.handler cx none body) i j
  | vars {cx sp k kind ds i i₁ i₂ j} : ts.Reads k i i₁ → VarKind.ofKind? k = some kind →
      Derives (.decls cx ds) i₁ i₂ → ts.Closes i₂ j → ts.spans i j sp →
      Derives (.stmt cx (.decl (.vars sp kind ds))) i j
  | classDecl {cx sp name parent members i j} : name.isSome = true →
      Derives (.classRest cx name parent members) i j → ts.spans i j sp →
      Derives (.stmt cx (.decl (.class sp name parent members))) i j
  | functionDecl {cx sp f i j} : f.name.isSome = true → Derives (.func f) i j → ts.spans i j sp →
      Derives (.stmt cx (.decl (.function sp f))) i j
  | doWhile {cx sp body e i i₁ i₂ i₃ i₄ j} {closed : Bool} : ts.Reads (.keyword .kwDo) i i₁ →
      Derives (.stmt cx body) i₁ i₂ → ts.Reads (.keyword .kwWhile) i₂ i₃ →
      Derives (.condition cx e) i₃ i₄ → ts.MayRead (.punct .semicolon) closed i₄ j →
      ts.spans i j sp → Derives (.stmt cx (.doWhile sp body e)) i j
  | whileLoop {cx sp e body i i₁ i₂ j} : ts.Reads (.keyword .kwWhile) i i₁ →
      Derives (.condition cx e) i₁ i₂ → Derives (.stmt cx body) i₂ j → ts.spans i j sp →
      Derives (.stmt cx (.whileLoop sp e body)) i j
  | ifElse {cx sp e yes no i i₁ i₂ i₃ i₄ j} : ts.Reads (.keyword .kwIf) i i₁ →
      Derives (.condition cx e) i₁ i₂ → Derives (.stmt cx yes) i₂ i₃ →
      ts.Reads (.keyword .kwElse) i₃ i₄ → Derives (.stmt cx no) i₄ j → ts.spans i j sp →
      Derives (.stmt cx (.ifElse sp e yes no)) i j
  | ifThen {cx sp e yes i i₁ i₂ j} : ts.Reads (.keyword .kwIf) i i₁ →
      Derives (.condition cx e) i₁ i₂ → Derives (.stmt cx yes) i₂ j →
      ts.kindAt j ≠ .keyword .kwElse → ts.spans i j sp → Derives (.stmt cx (.ifThen sp e yes)) i j
  | forIn {cx sp left e body i i₁ i₂ i₃ i₄ i₅ i₆ j} : ts.Reads (.keyword .kwFor) i i₁ →
      ts.Reads (.punct .lParen) i₁ i₂ → Derives (.forLeft cx left) i₂ i₃ →
      ts.Reads (.keyword .kwIn) i₃ i₄ → Derives (.expr cx.allowIn e) i₄ i₅ →
      ts.Reads (.punct .rParen) i₅ i₆ → Derives (.stmt cx body) i₆ j → ts.spans i j sp →
      Derives (.stmt cx (.forIn sp left e body)) i j
  | forOf {cx sp left e body i i₁ i₂ i₃ i₄ i₅ i₆ j} : ts.Reads (.keyword .kwFor) i i₁ →
      ts.Reads (.punct .lParen) i₁ i₂ → Derives (.forLeft cx left) i₂ i₃ → ts.ReadsWord "of" i₃ i₄ →
      Derives (.expr cx.allowIn e) i₄ i₅ → Level.assignment ≤ e.level →
      ts.Reads (.punct .rParen) i₅ i₆ → Derives (.stmt cx body) i₆ j → ts.spans i j sp →
      Derives (.stmt cx (.forOf sp left e body)) i j
  | leftVars {cx sp k kind b i i₁ j} : ts.Reads k i i₁ → VarKind.ofKind? k = some kind →
      Derives (.binding cx.allowIn b) i₁ j → ts.spans i₁ j sp →
      Derives (.forLeft cx (.vars kind [⟨sp, b, none⟩])) i j
  | leftPattern {cx b i j} : Derives (.binding cx.allowIn b) i j →
      Derives (.forLeft cx (.pattern b)) i j
  | forLoop {cx sp init test update body i i₁ i₂ i₃ i₄ i₅ i₆ i₇ i₈ j} :
      ts.Reads (.keyword .kwFor) i i₁ → ts.Reads (.punct .lParen) i₁ i₂ →
      Derives (.forInit cx init) i₂ i₃ → ts.Reads (.punct .semicolon) i₃ i₄ →
      Derives (.optional cx.allowIn test) i₄ i₅ → ts.Reads (.punct .semicolon) i₅ i₆ →
      Derives (.optional cx.allowIn update) i₆ i₇ → ts.Reads (.punct .rParen) i₇ i₈ →
      Derives (.stmt cx body) i₈ j → ts.spans i j sp →
      Derives (.stmt cx (.forLoop sp init test update body)) i j
  | noInit {cx i} : Derives (.forInit cx .none) i i
  | initVars {cx k kind ds i i₁ j} : ts.Reads k i i₁ → VarKind.ofKind? k = some kind →
      Derives (.decls cx.forbidIn ds) i₁ j → Derives (.forInit cx (.vars kind ds)) i j
  | initExpr {cx e i j} : Derives (.expr cx.forbidIn e) i j → Derives (.forInit cx (.expr e)) i j
  | ret {cx sp e i i₁ i₂ j} : ts.Reads (.keyword .kwReturn) i i₁ → ts.breaksAt i₁ = false →
      Derives (.expr cx e) i₁ i₂ → SequenceStops ts H cx.noIn i₂ e → ts.Closes i₂ j →
      ts.spans i j sp → Derives (.stmt cx (.ret sp (some e))) i j
  | retNothing {cx sp i i₁ j} : ts.Reads (.keyword .kwReturn) i i₁ → ts.Closes i₁ j →
      ts.spans i j sp → Derives (.stmt cx (.ret sp none)) i j
  | breakTo {cx sp label i i₁ i₂ j} : ts.Reads (.keyword .kwBreak) i i₁ → ts.breaksAt i₁ = false →
      ts.ReadsWord label i₁ i₂ → ts.Closes i₂ j → ts.spans i j sp →
      Derives (.stmt cx (.breakTo sp (some label))) i j
  | breakOut {cx sp i i₁ j} : ts.Reads (.keyword .kwBreak) i i₁ → ts.Closes i₁ j → ts.spans i j sp →
      Derives (.stmt cx (.breakTo sp none)) i j
  | continueTo {cx sp label i i₁ i₂ j} : ts.Reads (.keyword .kwContinue) i i₁ →
      ts.breaksAt i₁ = false → ts.ReadsWord label i₁ i₂ → ts.Closes i₂ j → ts.spans i j sp →
      Derives (.stmt cx (.continueTo sp (some label))) i j
  | continueOn {cx sp i i₁ j} : ts.Reads (.keyword .kwContinue) i i₁ → ts.Closes i₁ j →
      ts.spans i j sp → Derives (.stmt cx (.continueTo sp none)) i j
  | debugger {cx sp i i₁ j} : ts.Reads (.keyword .kwDebugger) i i₁ → ts.Closes i₁ j →
      ts.spans i j sp → Derives (.stmt cx (.debugger sp)) i j
  /- Imports and exports -/
  | importOnly {cx sp source i i₁ i₂ j} : ts.Reads (.keyword .kwImport) i i₁ →
      ts.StringAt source i₁ i₂ → ts.Closes i₂ j → ts.spans i j sp →
      Derives (.stmt cx (.importFrom sp source [])) i j
  | importFrom {cx sp source specifiers i i₁ i₂ i₃ i₄ j} : ts.Reads (.keyword .kwImport) i i₁ →
      Derives (.importClause specifiers) i₁ i₂ → ts.ReadsWord "from" i₂ i₃ →
      ts.StringAt source i₃ i₄ → ts.Closes i₄ j → ts.spans i j sp →
      Derives (.stmt cx (.importFrom sp source specifiers)) i j
  | clauseDefault {sp name i j} : namesVariable (ts.kindAt i) = true → ts.textAt i = name →
      ts.Takes i j → ts.kindAt j ≠ .punct .comma → Derives (.importClause [.default sp name]) i j
  | clauseBoth {sp name rest i i₁ i₂ j} : namesVariable (ts.kindAt i) = true → ts.textAt i = name →
      ts.Takes i i₁ → ts.Reads (.punct .comma) i₁ i₂ → Derives (.importList rest) i₂ j →
      Derives (.importClause (.default sp name :: rest)) i j
  | clauseList {specifiers i j} : Derives (.importList specifiers) i j →
      Derives (.importClause specifiers) i j
  | importAll {sp name i i₁ i₂ j} : ts.Reads (.punct .star) i i₁ → ts.ReadsWord "as" i₁ i₂ →
      namesVariable (ts.kindAt i₂) = true → ts.textAt i₂ = name → ts.Takes i₂ j →
      Derives (.importList [.all sp name]) i j
  | importNames {specifiers i i₁ j} : ts.Reads (.punct .lBrace) i i₁ →
      Derives (.items .top .importName specifiers) i₁ j → Derives (.importList specifiers) i j
  | exportDefault {cx sp e i i₁ i₂ j} : ts.Reads (.keyword .kwExport) i i₁ →
      ts.Reads (.keyword .kwDefault) i₁ i₂ → Derives (.exported cx e) i₂ j → ts.spans i j sp →
      Derives (.stmt cx (.exportDefault sp e)) i j
  | exportedFunc {cx sp f i j} : Derives (.func f) i j → ts.spans i j sp →
      Derives (.exported cx (.function sp f)) i j
  | exportedClass {cx sp name parent members i j} :
      Derives (.classRest cx name parent members) i j → ts.spans i j sp →
      Derives (.exported cx (.class sp name parent members)) i j
  | exportedValue {cx e i i₁ j} : ts.kindAt i ≠ .keyword .kwFunction →
      ts.kindAt i ≠ .keyword .kwClass →
      ¬ (ts.kindAt i = .keyword .kwAsync ∧ ts.kindAt (ts.past i) = .keyword .kwFunction) →
      Derives (.expr cx e) i i₁ → Level.assignment ≤ e.level → H cx.noIn i₁ e → ts.Closes i₁ j →
      Derives (.exported cx e) i j
  | exportAll {cx sp source i i₁ i₂ i₃ i₄ j} : ts.Reads (.keyword .kwExport) i i₁ →
      ts.Reads (.punct .star) i₁ i₂ → ts.ReadsWord "from" i₂ i₃ → ts.StringAt source i₃ i₄ →
      ts.Closes i₄ j → ts.spans i j sp → Derives (.stmt cx (.exportAll sp source)) i j
  | exportNames {cx sp specifiers i i₁ i₂ i₃ j} : ts.Reads (.keyword .kwExport) i i₁ →
      ts.Reads (.punct .lBrace) i₁ i₂ → Derives (.items .top .exportName specifiers) i₂ i₃ →
      ¬ (ts.kindAt i₃ = .identifier ∧ ts.textAt i₃ = "from") → ts.Closes i₃ j → ts.spans i j sp →
      Derives (.stmt cx (.exportNamed sp none specifiers)) i j
  | exportFrom {cx sp source specifiers i i₁ i₂ i₃ i₄ i₅ j} : ts.Reads (.keyword .kwExport) i i₁ →
      ts.Reads (.punct .lBrace) i₁ i₂ → Derives (.items .top .exportName specifiers) i₂ i₃ →
      ts.ReadsWord "from" i₃ i₄ → ts.StringAt source i₄ i₅ → ts.Closes i₅ j → ts.spans i j sp →
      Derives (.stmt cx (.exportNamed sp (some source) specifiers)) i j
  | exportDecl {cx sp d i i₁ j} : ts.Reads (.keyword .kwExport) i i₁ →
      Derives (.stmt cx (.decl d)) i₁ j → ts.spans i j sp →
      Derives (.stmt cx (.exportDecl sp d)) i j

end

/-- The tokens of a range spell a phrase, with every expression as long as it
can be. -/
abbrev Spells (ts : Reading) : Phrase → Nat → Nat → Prop :=
  Derives ts (Halts ts)

theorem BinaryOp.level_bounds (op : BinaryOp) : 5 ≤ op.level ∧ op.level ≤ 15 := by
  cases op <;> decide

theorem BinaryOp.level_le_leftLevel (op : BinaryOp) : op.level ≤ op.leftLevel := by
  unfold BinaryOp.leftLevel
  split <;> omega

theorem BinaryOp.level_le_rightLevel (op : BinaryOp) : op.level ≤ op.rightLevel := by
  unfold BinaryOp.rightLevel
  split <;> omega

theorem operandStops_of_closed {ts : Stream} {j : Nat} {e : Expr} (h : e.level = Level.closed) :
    OperandStops ts j e ↔ startsTail (ts.kindAt j) = false ∧
      (UpdateOp.ofKind? (ts.kindAt j) = none ∨ ts.breaksAt j = true) := by
  cases e with
  | unary | await => exact absurd h (by change Level.unary ≠ Level.closed; decide)
  | update _ _ leading _ =>
    cases leading with
    | true => exact absurd h (by change Level.unary ≠ Level.closed; decide)
    | false => exact absurd h (by change Level.updated ≠ Level.closed; decide)
  | binary _ op _ _ =>
    have hop : op.level = 255 := h
    have hbounds := BinaryOp.level_bounds op
    omega
  | _ => exact Iff.rfl

theorem stops_of_lt_level {ts : Stream} {noIn : Bool} {j : Nat} {e : Expr}
    (h : Level.conditional < e.level) :
    Stops ts noIn j e ↔ OperandStops ts j e ∧ infixOp? noIn (ts.kindAt j) = none ∧
      ts.kindAt j ≠ .punct .question ∧ AssignOp.ofKind? (ts.kindAt j) = none := by
  cases e with
  | arrow | arrowBlock | assign | assignPattern | yield | conditional =>
    exact absurd h (by simp only [Expr.level]; decide)
  | _ => exact Iff.rfl

theorem assignment_le_level {e : Expr} (h : ∀ span items, e = .sequence span items → False) :
    Level.assignment ≤ e.level := by
  cases e with
  | sequence span items => exact absurd rfl (h span items)
  | binary _ op _ _ =>
    have hbounds := BinaryOp.level_bounds op
    exact Nat.le_trans (by decide) hbounds.1
  | update _ _ leading _ => cases leading <;> simp only [Expr.level] <;> decide
  | _ =>
    simp only [Expr.level]
    decide

theorem SequenceStops.of_not_sequence {ts : Stream} {H : Ending} {noIn : Bool} {j : Nat} {e : Expr}
    (h : SequenceStops ts H noIn j e) (hsequence : ∀ span items, e = .sequence span items → False) :
    ts.kindAt j ≠ .punct .comma ∧ H noIn j e := by
  unfold SequenceStops at h
  split at h
  · exact absurd rfl (hsequence _ _)
  · exact h

end Grammar
end ScriptBundler
