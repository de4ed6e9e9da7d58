import ScriptBundler.Proofs.LexedStream

/-!
# Well-formed trees

Which trees stand for a script, said without tokens: names and numbers are
words of their own, operands hold together as tightly as their position asks
for, `await`, `yield` and `in` stand where they are operators, and nothing
starts or ends with what would be read as something else.

Which texts are words is a parameter, so that all this can also be said of trees
with any texts in them.  Scripts have no regular expressions here: what is
printed in front of one may open a comment with it.
-/

namespace ScriptBundler
namespace Grammar

open Grammar.Parser

def Worded (k : Token.Kind) (text : String) : Prop :=
  Lexeme.lexemes text.toList = [⟨k, text⟩]

instance (k : Token.Kind) (text : String) : Decidable (Worded k text) :=
  inferInstanceAs (Decidable (_ = _))

def IsName (name : String) : Prop :=
  ∃ k, k.isName = true ∧ Worded k name

def IsVariable (name : String) : Prop :=
  ∃ k, namesVariable k = true ∧ Worded k name

theorem exists_worded_iff {P : Token.Kind → Bool} {text : String} :
    (∃ l ∈ Lexeme.lexemes text.toList, P l.kind = true ∧ Worded l.kind text) ↔
      ∃ k, P k = true ∧ Worded k text := by
  constructor
  · rintro ⟨l, -, h⟩
    exact ⟨l.kind, h⟩
  · rintro ⟨k, hk, hword⟩
    exact ⟨⟨k, text⟩, hword ▸ List.mem_singleton.mpr rfl, hk, hword⟩

instance (name : String) : Decidable (IsName name) :=
  decidable_of_iff _ exists_worded_iff

instance (name : String) : Decidable (IsVariable name) :=
  decidable_of_iff _ exists_worded_iff

/-- A string with its quotes, as it stands in some script. -/
def IsString (raw : String) : Prop :=
  ∃ (rd : Reading) (cs : List Char) (i j : Nat),
    rd.Holds (Lexeme.lexemes cs) ∧ rd.StringAt raw i j

def IsTemplate (cx : Context) (raw : String) : Prop :=
  ∃ (rd : Reading) (cs : List Char) (i j : Nat),
    rd.Holds (Lexeme.lexemes cs) ∧ Spells rd (.template cx raw) i j

/-- Which texts may stand for words, strings and templates in a tree, and whether
regular expressions may stand in it. -/
structure Texts where
  word : Token.Kind → String → Prop
  string : String → Prop
  template : Context → String → Prop
  regex : Prop

namespace Texts

abbrev script : Texts :=
  ⟨Worded, IsString, IsTemplate, False⟩

abbrev any : Texts :=
  ⟨fun _ _ => True, fun _ => True, fun _ _ => True, True⟩

def IsName (T : Texts) (name : String) : Prop :=
  ∃ k, k.isName = true ∧ T.word k name

def IsVariable (T : Texts) (name : String) : Prop :=
  ∃ k, namesVariable k = true ∧ T.word k name

end Texts

/-- What an expression starts with, as far as a statement could start with it
too. -/
inductive Lead where
  | brace | function | asyncFunction | classWord | other
deriving DecidableEq, Repr

def bindingLead : Binding → Lead
  | .object _ _ => .brace
  | _ => .other

mutual

def exprLead : Expr → Lead
  | .object _ _ => .brace
  | .function _ f => if f.isAsync then .asyncFunction else .function
  | .class _ _ _ _ => .classWord
  | .assignPattern _ target _ => bindingLead target
  | .dot _ first _ _ | .index _ first _ | .call _ first _ | .tagged _ first _
  | .update _ _ false first | .binary _ _ first _ | .conditional _ first _ _
  | .assign _ _ first _ => exprLead first
  | .sequence _ items => listLead items
  | _ => .other

def listLead : List Expr → Lead
  | [] => .other
  | first :: _ => exprLead first

end

/-- Statements that end with an `if` that could take an `else`. -/
def endsOpen : Stmt → Bool
  | .ifThen _ _ _ => true
  | .ifElse _ _ _ last | .forLoop _ _ _ _ last | .forIn _ _ _ last | .forOf _ _ _ last
  | .whileLoop _ _ last | .labeled _ _ last => endsOpen last
  | _ => false

def isPattern : Binding → Bool
  | .ident _ _ => false
  | _ => true

/-!
# Trees

The rules are those for phrases, with the texts of tokens in place of the tokens.
-/

section
variable (T : Texts)

/-- Trees that stand for a phrase of a script, but for their texts. -/
inductive Formed : Phrase → Prop
  /- Operands -/
  | null {cx sp} : Formed (.expr cx (.null sp))
  | bool {cx sp value} : Formed (.expr cx (.bool sp value))
  | this {cx sp} : Formed (.expr cx (.this sp))
  | super {cx sp} : Formed (.expr cx (.super sp))
  | number {cx sp raw} : T.word .number raw → Formed (.expr cx (.number sp raw))
  | string {cx sp raw} : T.string raw → Formed (.expr cx (.string sp raw))
  | regex {cx sp pattern flags} : T.regex → Formed (.expr cx (.regex sp pattern flags))
  | quasi {cx sp raw} : Formed (.template cx raw) → Formed (.expr cx (.template sp raw))
  | ident {cx sp name} : T.IsVariable name → Formed (.expr cx (.ident sp name))
  | array {cx sp elements} : Formed (.items cx.allowIn .element elements) →
      Formed (.expr cx (.array sp elements))
  | object {cx sp properties} : Formed (.items cx.allowIn .property properties) →
      Formed (.expr cx (.object sp properties))
  | function {cx sp f} : Formed (.func f) → Formed (.expr cx (.function sp f))
  | class {cx sp name parent members} : Formed (.classRest cx name parent members) →
      Formed (.expr cx (.class sp name parent members))
  | paren {cx sp inner} : Formed (.expr cx.allowIn inner) → Formed (.expr cx (.paren sp inner))
  | dot {cx sp sp' object name} : Formed (.expr cx object) → IsObject object → T.IsName name →
      Formed (.expr cx (.dot sp object sp' name))
  | index {cx sp object property} : Formed (.expr cx object) → IsObject object →
      Formed (.expr cx.allowIn property) → Formed (.expr cx (.index sp object property))
  | call {cx sp callee args} : Formed (.expr cx callee) → IsObject callee →
      Formed (.items cx.allowIn .arg args) → Formed (.expr cx (.call sp callee args))
  | tagged {cx sp tag raw} : Formed (.expr cx tag) → IsObject tag → Formed (.template cx raw) →
      Formed (.expr cx (.tagged sp tag raw))
  | new {cx sp callee args} : Formed (.expr cx callee) → constructs callee = true →
      Formed (.items cx.allowIn .arg args) → Formed (.expr cx (.new sp callee args))
  | newBare {cx sp callee} : Formed (.expr cx callee) →
      constructs callee = true ∨ isNewBare callee = true → Formed (.expr cx (.newBare sp callee))
  /- Operators -/
  | unary {cx sp op arg} : Formed (.expr cx arg) → Level.unary ≤ arg.level →
      Formed (.expr cx (.unary sp op arg))
  | await {cx sp arg} : cx.inAsync = true → Formed (.expr cx arg) → Level.unary ≤ arg.level →
      Formed (.expr cx (.await sp arg))
  | leading {cx sp op arg} : Formed (.expr cx arg) → Level.unary ≤ arg.level →
      Formed (.expr cx (.update sp op true arg))
  | trailing {cx sp op arg} : Formed (.expr cx arg) → arg.level = Level.closed →
      Formed (.expr cx (.update sp op false arg))
  | binary {cx sp k op left right} : Formed (.expr cx left) → op.leftLevel ≤ left.level →
      infixOp? cx.noIn k = some op → Formed (.expr cx right) → op.rightLevel ≤ right.level →
      Formed (.expr cx (.binary sp op left right))
  | conditional {cx sp test yes no} : Formed (.expr cx test) → Level.conditional < test.level →
      Formed (.expr cx.allowIn yes) → Level.assignment ≤ yes.level → Formed (.expr cx no) →
      Level.assignment ≤ no.level → Formed (.expr cx (.conditional sp test yes no))
  | assign {cx sp op target value} : Formed (.expr cx target) → target.isAssignable = true →
      Formed (.expr cx value) → Level.assignment ≤ value.level →
      Formed (.expr cx (.assign sp op target value))
  | assignPattern {cx sp target value} : Formed (.binding cx.allowIn target) →
      isPattern target = true → Formed (.expr cx value) → Level.assignment ≤ value.level →
      Formed (.expr cx (.assignPattern sp target value))
  | arrow {cx sp isAsync params body} : Formed (.arrowHead isAsync params) →
      exprLead body ≠ .brace → Formed (.expr (Context.arrow isAsync cx.noIn) body) →
      Level.assignment ≤ body.level → Formed (.expr cx (.arrow sp isAsync params body))
  | arrowBlock {cx sp isAsync params body} : Formed (.arrowHead isAsync params) →
      Formed (.block (Context.function isAsync false) body) →
      Formed (.expr cx (.arrowBlock sp isAsync params body))
  | yieldValue {cx sp delegate arg} : cx.inGenerator = true → Formed (.expr cx arg) →
      Level.assignment ≤ arg.level → Formed (.expr cx (.yield sp delegate (some arg)))
  | yieldNothing {cx sp} : cx.inGenerator = true → Formed (.expr cx (.yield sp false none))
  | sequence {cx sp first others} : Formed (.expr cx first) → Level.assignment ≤ first.level →
      Formed (.others cx others) → Formed (.expr cx (.sequence sp (first :: others)))
  | other {cx e} : Formed (.expr cx e) → Level.assignment ≤ e.level → Formed (.others cx [e])
  | moreOthers {cx e es} : Formed (.expr cx e) → Level.assignment ≤ e.level →
      Formed (.others cx es) → Formed (.others cx (e :: es))
  /- Lists with commas -/
  | noItems {cx c} : Formed (.items cx c [])
  | hole {cx c x xs} : c.hole = some x → Formed (.items cx c xs) → Formed (.items cx c (x :: xs))
  | moreItems {cx c x xs} : Formed (.item cx c x) → Formed (.items cx c xs) →
      Formed (.items cx c (x :: xs))
  | spreadArg {cx sp e} : Formed (.expr cx e) → Level.assignment ≤ e.level →
      Formed (.item cx .arg (.spread sp e))
  | plainArg {cx e} : Formed (.expr cx e) → Level.assignment ≤ e.level → Formed (.item cx .arg e)
  | element {cx e} : Formed (.item cx .arg e) → Formed (.item cx .element (some e))
  | spreadProperty {cx e} : Formed (.expr cx e) → Level.assignment ≤ e.level →
      Formed (.item cx .property (.spread e))
  | methodProperty {cx sp kind isAsync isGenerator key params body} :
      kind = .method ∨ isAsync = false ∧ isGenerator = false → Formed (.key cx key) →
      Formed (.callable (Context.function isAsync isGenerator) params body) →
      Formed (.item cx .property (.method kind key
        ⟨sp, none, isAsync, isGenerator, params, body⟩))
  | pair {cx key e} : Formed (.key cx key) → Formed (.expr cx e) → Level.assignment ≤ e.level →
      Formed (.item cx .property (.pair key e))
  | shorthand {cx name} : T.word .identifier name → Formed (.item cx .property (.shorthand name))
  | arrayRest {cx b} : Formed (.binding cx b) → Formed (.item cx .arrayElement (.rest b))
  | arrayItem {cx b v} : Formed (.binding cx b) → Formed (.value cx v) →
      Formed (.item cx .arrayElement (.item b v))
  | objectRest {cx sp name} : T.word .identifier name →
      Formed (.item cx .objectElement (.rest sp name))
  | objectPair {cx key b v} : Formed (.key cx key) → Formed (.binding cx b) → Formed (.value cx v) →
      Formed (.item cx .objectElement (.pair key b v))
  | objectShort {cx sp name v} : T.word .identifier name → Formed (.value cx v) →
      Formed (.item cx .objectElement (.shorthand sp name v))
  | restParam {cx sp b} : Formed (.binding cx b) → Formed (.item cx .param (.rest sp b))
  | plainParam {cx sp b v} : Formed (.binding cx b) → Formed (.value cx v) →
      Formed (.item cx .param (.plain sp b v))
  | imported {cx sp imported name} : T.IsName imported → imported = name ∨ T.IsVariable name →
      Formed (.item cx .importName (.named sp imported name))
  | exportedName {cx sp name exported} : T.IsName name → T.IsName exported →
      Formed (.item cx .exportName ⟨sp, name, exported⟩)
  /- Names and patterns -/
  | keyName {cx name} : T.IsName name → Formed (.key cx (.ident name))
  | keyString {cx raw} : T.string raw → Formed (.key cx (.string raw))
  | keyNumber {cx raw} : T.word .number raw → Formed (.key cx (.number raw))
  | keyComputed {cx e} : Formed (.expr cx e) → Level.assignment ≤ e.level →
      Formed (.key cx (.computed e))
  | bound {cx sp name} : T.IsVariable name → Formed (.binding cx (.ident sp name))
  | boundArray {cx sp elements} : Formed (.items cx .arrayElement elements) →
      Formed (.binding cx (.array sp elements))
  | boundObject {cx sp properties} : Formed (.items cx .objectElement properties) →
      Formed (.binding cx (.object sp properties))
  | noValue {cx} : Formed (.value cx none)
  | value {cx e} : Formed (.expr cx e) → Level.assignment ≤ e.level → Formed (.value cx (some e))
  /- Templates are texts, not trees -/
  | template {cx raw} : T.template cx raw → Formed (.template cx raw)
  | templateRest {cx} : Formed (.templateRest cx)
  | substitution {cx} : Formed (.substitution cx)
  /- Functions and classes -/
  | func {f} : Formed (.funcRest f) → Formed (.func f)
  | funcRest {sp name isAsync isGenerator params body} : (∀ text ∈ name, T.word .identifier text) →
      Formed (.callable (Context.function isAsync isGenerator) params body) →
      Formed (.funcRest ⟨sp, name, isAsync, isGenerator, params, body⟩)
  | callable {cx params body} : Formed (.items cx .param params) → Formed (.block cx body) →
      Formed (.callable cx params body)
  | arrowHead {isAsync params} : Formed (.items (Context.function isAsync false) .param params) →
      Formed (.arrowHead isAsync params)
  | classRest {cx name parent members} : (∀ text ∈ name, T.word .identifier text) →
      Formed (.parent cx parent) → Formed (.members cx.allowIn members) →
      Formed (.classRest cx name parent members)
  | noParent {cx} : Formed (.parent cx none)
  | parent {cx e} : Formed (.expr cx e) → e.level = Level.closed → Formed (.parent cx (some e))
  | noMembers {cx} : Formed (.members cx [])
  | moreMembers {cx m ms} : Formed (.member cx m) → Formed (.members cx ms) →
      Formed (.members cx (m :: ms))
  | method {cx sp sp' kind isStatic isAsync isGenerator key params body} :
      kind = .method ∨ isAsync = false ∧ isGenerator = false → Formed (.key cx key) →
      Formed (.callable (Context.function isAsync isGenerator) params body) →
      Formed (.member cx (.method sp kind isStatic key
        ⟨sp', none, isAsync, isGenerator, params, body⟩))
  | field {cx sp isStatic key v} : Formed (.key cx key) → Formed (.value cx v) →
      Formed (.member cx (.field sp isStatic key v))
  /- Statements -/
  | block {cx body} : Formed (.stmts cx [.punct .rBrace] body) → Formed (.block cx body)
  | noStmts {cx stop} : Formed (.stmts cx stop [])
  | moreStmts {cx stop s body} : Formed (.stmt cx s) → Formed (.stmts cx stop body) →
      Formed (.stmts cx stop (s :: body))
  | condition {cx e} : Formed (.expr cx.allowIn e) → Formed (.condition cx e)
  | left_out {cx} : Formed (.optional cx none)
  | given {cx e} : Formed (.expr cx e) → Formed (.optional cx (some e))
  | lastDecl {cx d} : Formed (.decl cx d) → Formed (.decls cx [d])
  | moreDecls {cx d ds} : Formed (.decl cx d) → Formed (.decls cx ds) → Formed (.decls cx (d :: ds))
  | decl {cx sp b v} : Formed (.binding cx.allowIn b) → Formed (.value cx v) →
      Formed (.decl cx ⟨sp, b, v⟩)
  | labeled {cx sp label body} : T.word .identifier label → Formed (.stmt cx body) →
      Formed (.stmt cx (.labeled sp label body))
  | exprStmt {cx sp e} : exprLead e = .other → Formed (.expr cx e) → Formed (.stmt cx (.expr sp e))
  | blockStmt {cx sp body} : Formed (.block cx body) → Formed (.stmt cx (.block sp body))
  | empty {cx sp} : Formed (.stmt cx (.empty sp))
  | throw {cx sp e} : Formed (.expr cx e) → Formed (.stmt cx (.throw sp e))
  | switch {cx sp e cs} : Formed (.condition cx e) → Formed (.cases cx cs) →
      Formed (.stmt cx (.switch sp e cs))
  | noCases {cx} : Formed (.cases cx [])
  | moreCases {cx c cs} : Formed (.case cx c) → Formed (.cases cx cs) → Formed (.cases cx (c :: cs))
  | testCase {cx sp e body} : Formed (.expr cx e) → Formed (.stmts cx caseStops body) →
      Formed (.case cx ⟨sp, some e, body⟩)
  | defaultCase {cx sp body} : Formed (.stmts cx caseStops body) →
      Formed (.case cx ⟨sp, none, body⟩)
  | tryCatch {cx sp sp' body param handler} : Formed (.block cx body) →
      Formed (.handler cx param handler) → Formed (.stmt cx (.tryCatch sp body sp' param handler))
  | tryFinally {cx sp body finalizer} : Formed (.block cx body) → Formed (.block cx finalizer) →
      Formed (.stmt cx (.tryFinally sp body finalizer))
  | tryCatchFinally {cx sp sp' body param handler finalizer} : Formed (.block cx body) →
      Formed (.handler cx param handler) → Formed (.block cx finalizer) →
      Formed (.stmt cx (.tryCatchFinally sp body sp' param handler finalizer))
  | handler {cx b body} : Formed (.binding cx.allowIn b) → Formed (.block cx body) →
      Formed (.handler cx (some b) body)
  | bareHandler {cx body} : Formed (.block cx body) → Formed (.handler cx none body)
  | vars {cx sp kind ds} : Formed (.decls cx ds) → Formed (.stmt cx (.decl (.vars sp kind ds)))
  | classDecl {cx sp name parent members} : name.isSome = true →
      Formed (.classRest cx name parent members) →
      Formed (.stmt cx (.decl (.class sp name parent members)))
  | functionDecl {cx sp f} : f.name.isSome = true → Formed (.func f) →
      Formed (.stmt cx (.decl (.function sp f)))
  | doWhile {cx sp body e} : Formed (.stmt cx body) → Formed (.condition cx e) →
      Formed (.stmt cx (.doWhile sp body e))
  | whileLoop {cx sp e body} : Formed (.condition cx e) → Formed (.stmt cx body) →
      Formed (.stmt cx (.whileLoop sp e body))
  | ifElse {cx sp e yes no} : Formed (.condition cx e) → Formed (.stmt cx yes) →
      endsOpen yes = false → Formed (.stmt cx no) → Formed (.stmt cx (.ifElse sp e yes no))
  | ifThen {cx sp e yes} : Formed (.condition cx e) → Formed (.stmt cx yes) →
      Formed (.stmt cx (.ifThen sp e yes))
  | forIn {cx sp left e body} : Formed (.forLeft cx left) → Formed (.expr cx.allowIn e) →
      Formed (.stmt cx body) → Formed (.stmt cx (.forIn sp left e body))
  | forOf {cx sp left e body} : Formed (.forLeft cx left) → Formed (.expr cx.allowIn e) →
      Level.assignment ≤ e.level → Formed (.stmt cx body) →
      Formed (.stmt cx (.forOf sp left e body))
  | leftVars {cx sp kind b} : Formed (.binding cx.allowIn b) →
      Formed (.forLeft cx (.vars kind [⟨sp, b, none⟩]))
  | leftPattern {cx b} : Formed (.binding cx.allowIn b) → Formed (.forLeft cx (.pattern b))
  | forLoop {cx sp init test update body} : Formed (.forInit cx init) →
      Formed (.optional cx.allowIn test) → Formed (.optional cx.allowIn update) →
      Formed (.stmt cx body) → Formed (.stmt cx (.forLoop sp init test update body))
  | noInit {cx} : Formed (.forInit cx .none)
  | initVars {cx kind ds} : Formed (.decls cx.forbidIn ds) → Formed (.forInit cx (.vars kind ds))
  | initExpr {cx e} : Formed (.expr cx.forbidIn e) → Formed (.forInit cx (.expr e))
  | ret {cx sp e} : Formed (.optional cx e) → Formed (.stmt cx (.ret sp e))
  | breakTo {cx sp label} : (∀ text ∈ label, T.word .identifier text) →
      Formed (.stmt cx (.breakTo sp label))
  | continueTo {cx sp label} : (∀ text ∈ label, T.word .identifier text) →
      Formed (.stmt cx (.continueTo sp label))
  | debugger {cx sp} : Formed (.stmt cx (.debugger sp))
  /- Imports and exports -/
  | importFrom {cx sp source specifiers} : Formed (.importClause specifiers) → T.string source →
      Formed (.stmt cx (.importFrom sp source specifiers))
  | clauseBoth {sp name rest} : T.IsVariable name → Formed (.importList rest) →
      Formed (.importClause (.default sp name :: rest))
  | clauseList {specifiers} : Formed (.importList specifiers) → Formed (.importClause specifiers)
  | importAll {sp name} : T.IsVariable name → Formed (.importList [.all sp name])
  | importNames {specifiers} : Formed (.items .top .importName specifiers) →
      Formed (.importList specifiers)
  | exportDefault {cx sp e} : Formed (.exported cx e) → Formed (.stmt cx (.exportDefault sp e))
  | exportedFunc {cx sp f} : Formed (.func f) → Formed (.exported cx (.function sp f))
  | exportedClass {cx sp name parent members} : Formed (.classRest cx name parent members) →
      Formed (.exported cx (.class sp name parent members))
  | exportedValue {cx e} : exprLead e = .other ∨ exprLead e = .brace → Formed (.expr cx e) →
      Level.assignment ≤ e.level → Formed (.exported cx e)
  | exportAll {cx sp source} : T.string source → Formed (.stmt cx (.exportAll sp source))
  | exportNamed {cx sp source specifiers} : Formed (.items .top .exportName specifiers) →
      (∀ text ∈ source, T.string text) → Formed (.stmt cx (.exportNamed sp source specifiers))
  | exportDecl {cx sp d} : Formed (.stmt cx (.decl d)) → Formed (.stmt cx (.exportDecl sp d))

end

end Grammar
end ScriptBundler
