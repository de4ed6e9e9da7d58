import Mathlib.Tactic.CasesM
import ScriptBundler.Proofs.Exactness

/-!
# Functions and loop heads around expressions

`await`, `yield` and `in` are operators only in some places.  Where an
expression stands is said of the tree alone: which function is the nearest one
around it, and whether it stands in the head of a loop with no bracket, class
or block in between.  What tokens spell has these operators only where they may
be.
-/

namespace ScriptBundler

/-!
# Places in a tree

A place tells which function is around a tree, and whether it is in the head of a
loop.
-/

structure Enclosure where
  /-- Whether the nearest function around is async and whether it is a
  generator. -/
  function : Option (Bool × Bool)
  /-- In the head of a loop, where `in` is no operator. -/
  inHead : Bool

namespace Enclosure

def top : Enclosure :=
  ⟨none, false⟩

def body (isAsync isGenerator : Bool) : Enclosure :=
  ⟨some (isAsync, isGenerator), false⟩

def free (sc : Enclosure) : Enclosure :=
  ⟨sc.function, false⟩

def head (sc : Enclosure) : Enclosure :=
  ⟨sc.function, true⟩

end Enclosure

namespace Tree

/-- The parts of a tree, each with the place it stands in.  Parameters and body
belong to their function, all of a class to the function around it. -/
@[simp]
def placedParts (sc : Enclosure) : Tree → List (Enclosure × Tree)
  | func f => (parts (func f)).map (.body f.isAsync f.isGenerator, ·)
  | expr (.arrow _ isAsync ps e) =>
    [(.body isAsync false, params ps), (⟨some (isAsync, false), sc.inHead⟩, expr e)]
  | expr (.arrowBlock sp isAsync ps body) =>
    (ofExpr (.arrowBlock sp isAsync ps body)).map (.body isAsync false, ·)
  | expr (.conditional _ test yes no) => [(sc, expr test), (sc.free, expr yes), (sc, expr no)]
  | expr (.index _ e e') => [(sc, expr e), (sc.free, expr e')]
  | expr (.call _ e es) | expr (.new _ e es) => [(sc, expr e), (sc.free, exprs es)]
  | expr (.paren _ e) => [(sc.free, expr e)]
  | expr (.array _ es) => [(sc.free, elements es)]
  | expr (.object _ ps) => [(sc.free, properties ps)]
  | expr (.class _ _ parent ms) => [(sc.free, option parent), (sc.free, members ms)]
  | binding b => (parts (binding b)).map (sc.free, ·)
  | stmt (.forLoop _ init e e' s) =>
    [(sc.head, forInit init), (sc, option e), (sc, option e'), (sc, stmt s)]
  | t => t.parts.map (sc, ·)

theorem map_snd_placedParts (sc : Enclosure) (t : Tree) :
    (t.placedParts sc).map Prod.snd = t.parts := by
  fun_cases placedParts sc t <;>
    first
      | rfl
      | rw [List.map_map]
        exact List.map_id' _

inductive Holds : Enclosure → Tree → Enclosure → Tree → Prop
  | self {sc : Enclosure} {t : Tree} : Holds sc t sc t
  | part {sc sc' : Enclosure} {t t' : Tree} {part : Enclosure × Tree} : part ∈ t.placedParts sc →
      Holds part.1 part.2 sc' t' → Holds sc t sc' t'

end Tree

/-- An operator that depends on the place stands where it may. -/
def Enclosure.Allows (sc : Enclosure) : Tree → Prop
  | .expr (.await _ _) => ∃ isGenerator, sc.function = some (true, isGenerator)
  | .expr (.yield _ _ _) => ∃ isAsync, sc.function = some (isAsync, true)
  | .expr (.binary _ .inside _ _) => sc.inHead = false
  | _ => True

def Tree.Scoped (sc : Enclosure) (t : Tree) : Prop :=
  ∀ sc' t', Tree.Holds sc t sc' t' → sc'.Allows t'

variable {sc : Enclosure} {t : Tree}

theorem Tree.Scoped.intro (hself : sc.Allows t)
    (hparts : ∀ part ∈ t.placedParts sc, part.2.Scoped part.1) : t.Scoped sc := by
  intro sc' t' hholds
  cases hholds with
  | self => exact hself
  | part hpart hholds => exact hparts _ hpart sc' t' hholds

namespace Grammar

/-- A context allows no more operators than a place. -/
structure Suits (cx : Context) (sc : Enclosure) : Prop where
  awaits : cx.inAsync = true → ∃ isGenerator, sc.function = some (true, isGenerator)
  yields : cx.inGenerator = true → ∃ isAsync, sc.function = some (isAsync, true)
  inHead : sc.inHead = true → cx.noIn = true

variable {cx : Context}

theorem Suits.free (h : Suits cx sc) : Suits cx sc.free :=
  ⟨h.awaits, h.yields, nofun⟩

theorem Suits.allowIn (h : Suits cx sc) : Suits cx.allowIn sc.free :=
  ⟨h.awaits, h.yields, nofun⟩

theorem Suits.anyIn (h : Suits cx sc) : Suits cx.allowIn.forbidIn sc :=
  ⟨h.awaits, h.yields, fun _ => rfl⟩

theorem Suits.head (h : Suits cx sc) : Suits cx.forbidIn sc.head :=
  ⟨h.awaits, h.yields, fun _ => rfl⟩

theorem Suits.of_allowIn (h : Suits cx.allowIn sc) : Suits cx sc :=
  ⟨h.awaits, h.yields, fun hhead => nomatch h.inHead hhead⟩

theorem Suits.of_forbidIn (h : Suits cx.forbidIn sc) : Suits cx sc.free :=
  ⟨h.awaits, h.yields, nofun⟩

theorem suits_anywhere : Suits Context.top.forbidIn sc :=
  ⟨nofun, nofun, fun _ => rfl⟩

theorem suits_body (isAsync isGenerator : Bool) :
    Suits (Context.function isAsync isGenerator).allowIn (.body isAsync isGenerator) :=
  ⟨fun h => ⟨isGenerator, by rw [← h]; rfl⟩, fun h => ⟨isAsync, by rw [← h]; rfl⟩, nofun⟩

theorem Suits.arrow {isAsync : Bool} (h : Suits cx sc) :
    Suits (.arrow isAsync cx.noIn) ⟨some (isAsync, false), sc.inHead⟩ :=
  ⟨(suits_body isAsync false).awaits, (suits_body isAsync false).yields, h.inHead⟩

def ItemClass.trees : (c : ItemClass) → List c.Item → List Tree
  | .param, ps => [.params ps]
  | .arg, es => [.exprs es]
  | .element, es => [.elements es]
  | .property, ps => [.properties ps]
  | .arrayElement, es => [.arrayElements es]
  | .objectElement, es => [.objectElements es]
  | .importName, _ | .exportName, _ => []

def ItemClass.tree : (c : ItemClass) → c.Item → List Tree
  | .param, p => [.param p]
  | .arg, e => [.expr e]
  | .element, e => [.option e]
  | .property, p => [.property p]
  | .arrayElement, e => [.arrayElement e]
  | .objectElement, e => [.objectElement e]
  | .importName, _ | .exportName, _ => []

def Phrase.trees : Phrase → List Tree
  | .expr _ e | .condition _ e | .exported _ e => [.expr e]
  | .others _ es => [.exprs es]
  | .items _ c xs => c.trees xs
  | .item _ c x => c.tree x
  | .key _ k => [.key k]
  | .binding _ b => [.binding b]
  | .value _ e | .parent _ e | .optional _ e => [.option e]
  | .func f | .funcRest f => [.func f]
  | .callable _ ps body => [.params ps, .stmts body]
  | .arrowHead _ ps => [.params ps]
  | .classRest _ _ e ms => [.option e, .members ms]
  | .members _ ms => [.members ms]
  | .member _ m => [.member m]
  | .block _ body | .stmts _ _ body => [.stmts body]
  | .stmt _ s => [.stmt s]
  | .decls _ ds => [.declarators ds]
  | .decl _ d => [.declarator d]
  | .forLeft _ init | .forInit _ init => [.forInit init]
  | .cases _ cs => [.cases cs]
  | .case _ c => [.case c]
  | .handler _ b body => [.handler b, .stmts body]
  | .template _ _ | .templateRest _ | .substitution _ | .importList _ | .importClause _ => []

/-- The context that the place of a phrase has to suit.  Statements do not stand
in the head of a loop; patterns and functions may stand anywhere. -/
def Phrase.context : Phrase → Context
  | .expr cx _ | .others cx _ | .items cx _ _ | .item cx _ _ | .key cx _ | .value cx _
  | .parent cx _ | .members cx _ | .member cx _ | .optional cx _ | .decls cx _ | .decl cx _
  | .template cx _ | .templateRest cx | .substitution cx => cx
  | .callable cx _ _ | .classRest cx _ _ _ | .block cx _ | .stmts cx _ _ | .stmt cx _
  | .condition cx _ | .forLeft cx _ | .cases cx _ | .case cx _ | .handler cx _ _
  | .exported cx _ => cx.allowIn
  | .binding cx _ | .forInit cx _ => cx.forbidIn
  | .arrowHead isAsync _ => .function isAsync false
  | .func _ | .funcRest _ | .importList _ | .importClause _ => Context.top.forbidIn

theorem scoped_leaf (hself : sc.Allows t) (hparts : t.placedParts sc = []) : t.Scoped sc :=
  .intro hself (by rw [hparts]; exact List.forall_mem_nil _)

theorem scoped_pair {sc' : Enclosure} {t' : Tree} (h : t.Scoped sc) (h' : t'.Scoped sc') :
    ∀ part ∈ [(sc, t), (sc', t')], part.2.Scoped part.1 :=
  List.forall_mem_cons.2 ⟨h, List.forall_mem_singleton.2 h'⟩

theorem ItemClass.scoped_nil (c : ItemClass) : ∀ t ∈ c.trees [], t.Scoped sc := by
  cases c
  case importName | exportName => exact nofun
  all_goals exact List.forall_mem_singleton.2 (scoped_leaf trivial rfl)

theorem ItemClass.scoped_cons (c : ItemClass) {x : c.Item} {xs : List c.Item}
    (hx : ∀ t ∈ c.tree x, t.Scoped sc) (hxs : ∀ t ∈ c.trees xs, t.Scoped sc) :
    ∀ t ∈ c.trees (x :: xs), t.Scoped sc := by
  cases c
  case importName | exportName => exact nofun
  all_goals
    exact List.forall_mem_singleton.2
      (.intro trivial (scoped_pair (hx _ (.head _)) (hxs _ (.head _))))

theorem ItemClass.scoped_hole (c : ItemClass) {x : c.Item} (h : c.hole = some x) :
    ∀ t ∈ c.tree x, t.Scoped sc := by
  cases c <;> cases h <;> exact List.forall_mem_singleton.2 (scoped_leaf trivial rfl)

theorem Suits.allows_binary {k : Token.Kind} {op : BinaryOp} {sp : Span} {left right : Expr}
    (hsuits : Suits cx sc) (hop : infixOp? cx.noIn k = some op) :
    sc.Allows (.expr (.binary sp op left right)) := by
  cases op with
  | inside =>
    refine Bool.eq_false_iff.2 fun hhead => ?_
    rw [hsuits.inHead hhead, infixOp?] at hop
    split at hop
    · cases hop
    · rename_i hnot
      unfold BinaryOp.ofKind? at hop
      split at hop <;> simp_all
  | _ => trivial

/-- What tokens spell has its operators where they may stand, at every place
that suits the context. -/
theorem Derives.scoped {rd : Reading} {H : Ending} {ph : Phrase} {i j : Nat}
    (h : Derives rd H ph i j) : ∀ sc, Suits ph.context sc → ∀ t ∈ ph.trees, t.Scoped sc := by
  induction h
  all_goals intro sc hsuits
  case noItems => exact ItemClass.scoped_nil _
  case hole hhole _ _ ih =>
    exact ItemClass.scoped_cons _ (ItemClass.scoped_hole _ hhole) (ih sc hsuits)
  case moreItems _ _ _ ih ih' => exact ItemClass.scoped_cons _ (ih sc hsuits) (ih' sc hsuits)
  case lastItem _ _ ih => exact ItemClass.scoped_cons _ (ih sc hsuits) (ItemClass.scoped_nil _)
  case await _ hcx _ _ _ ih =>
    exact List.forall_mem_singleton.2 (.intro (hsuits.awaits hcx) (List.forall_mem_singleton.2
      (ih sc hsuits _ (.head _))))
  case yieldNothing hcx _ _ =>
    exact List.forall_mem_singleton.2 (.intro (hsuits.yields hcx) (List.forall_mem_singleton.2
      (scoped_leaf trivial rfl)))
  case delegate hcx _ _ _ _ _ ih | yieldValue hcx _ _ _ _ ih =>
    exact List.forall_mem_singleton.2 (.intro (hsuits.yields hcx) (List.forall_mem_singleton.2
      (.intro trivial (List.forall_mem_singleton.2 (ih sc hsuits _ (.head _))))))
  case binary _ _ _ hop _ _ _ ih ih' =>
    exact List.forall_mem_singleton.2 (.intro (hsuits.allows_binary hop)
      (scoped_pair (ih sc hsuits _ (.head _)) (ih' sc hsuits _ (.head _))))
  case exportDecl _ _ _ ih =>
    exact List.forall_mem_singleton.2 (.intro trivial (List.forall_mem_singleton.2
      fun sc' t' hholds => ih sc hsuits _ (.head _) sc' t' (.part (.head _) hholds)))
  -- Phrases without a tree.
  case imported | importedAs | exportedName | exportedAs | template | templateClose
      | templateEscape | templateEscapeThen | templateThen | templatePlain | substitution
      | clauseDefault | clauseBoth | clauseList | importAll | importNames =>
    exact List.forall_mem_nil _
  all_goals
    simp only [Phrase.trees, Phrase.context, ItemClass.tree, ItemClass.trees, List.forall_mem_cons,
      List.not_mem_nil, false_imp_iff, implies_true, and_true, forall_and] at *
    try casesm* _ ∧ _
  -- Trees without parts.
  case null | trueWord | falseWord | this | super | number | string | regex | quasi | ident
      | asyncIdent | shorthand | objectRest | keyName | keyString | keyNumber | bound | noValue
      | noParent | noMembers | noStmts | left_out | empty | noCases | noInit | breakTo | breakOut
      | continueTo | continueOn | debugger | importOnly | importFrom | exportAll | exportNames
      | exportFrom =>
    exact scoped_leaf trivial rfl
  -- Phrases with the trees of the phrases in them.
  case plainArg | func | asyncFunc | arrowParams | skipMember | block | condition | exportedValue
      | callable | classRest =>
    and_intros
    all_goals solve_by_elim [Suits.free, Suits.allowIn, Suits.anyIn, Suits.head, Suits.of_allowIn,
      Suits.of_forbidIn, suits_anywhere, suits_body, Suits.arrow]
  case handler =>
    refine ⟨.intro trivial (List.forall_mem_singleton.2 ?_), ?_⟩
    all_goals solve_by_elim [Suits.free, Suits.allowIn, Suits.anyIn, Suits.head, Suits.of_allowIn,
      Suits.of_forbidIn, suits_anywhere, suits_body, Suits.arrow]
  case bareHandler =>
    refine ⟨scoped_leaf trivial rfl, ?_⟩
    solve_by_elim [Suits.free, Suits.allowIn, Suits.anyIn, Suits.head, Suits.of_allowIn,
      Suits.of_forbidIn, suits_anywhere, suits_body, Suits.arrow]
  -- Trees with the trees of other phrases as their parts.
  case array | object | function | paren | tagged | newBare | unary | leading | trailing
      | spreadArg | element | spreadProperty | arrayRest | objectShort | restParam | keyComputed
      | boundArray | boundObject | value | parent | given | labeled | exprStmt | blockStmt | throw
      | leftPattern | initVars | initExpr | exportDefault | exportedFunc | «class» | index | call
      | new | assign | assignPattern | arrow | arrowBlock | moreOthers | pair | arrayItem
      | plainParam | funcRest | moreMembers | field | moreStmts | moreDecls | decl | switch
      | moreCases | tryFinally | doWhile | whileLoop | ifThen | exportedClass | conditional
      | objectPair | tryCatch | ifElse | forIn | forOf | tryCatchFinally | forLoop =>
    refine .intro trivial ?_
    simp only [Tree.placedParts, Tree.ofExpr, Tree.ofStmt, Tree.parts, List.map_cons,
      List.map_nil, List.forall_mem_cons, List.not_mem_nil, false_imp_iff, implies_true, and_true]
    and_intros
    all_goals solve_by_elim [Suits.free, Suits.allowIn, Suits.anyIn, Suits.head, Suits.of_allowIn,
      Suits.of_forbidIn, suits_anywhere, suits_body, Suits.arrow]
  -- Trees with an empty part, or with a tree in between.
  case retNothing =>
    exact .intro trivial (List.forall_mem_singleton.2 (scoped_leaf trivial rfl))
  case ret | vars | functionDecl =>
    refine .intro trivial (List.forall_mem_singleton.2
      (.intro trivial (List.forall_mem_singleton.2 ?_)))
    solve_by_elim [Suits.free, Suits.allowIn, Suits.anyIn, Suits.head, Suits.of_allowIn,
      Suits.of_forbidIn, suits_anywhere, suits_body, Suits.arrow]
  case sequence | classDecl =>
    refine .intro trivial (List.forall_mem_singleton.2 (.intro trivial (scoped_pair ?_ ?_)))
    all_goals solve_by_elim [Suits.free, Suits.allowIn, Suits.anyIn, Suits.head, Suits.of_allowIn,
      Suits.of_forbidIn, suits_anywhere, suits_body, Suits.arrow]
  case dot | other | lastDecl =>
    refine .intro trivial (scoped_pair ?_ (scoped_leaf trivial rfl))
    solve_by_elim [Suits.free, Suits.allowIn, Suits.anyIn, Suits.head, Suits.of_allowIn,
      Suits.of_forbidIn, suits_anywhere, suits_body, Suits.arrow]
  case defaultCase =>
    refine .intro trivial (scoped_pair (scoped_leaf trivial rfl) ?_)
    solve_by_elim [Suits.free, Suits.allowIn, Suits.anyIn, Suits.head, Suits.of_allowIn,
      Suits.of_forbidIn, suits_anywhere, suits_body, Suits.arrow]
  case testCase =>
    refine .intro trivial (scoped_pair (.intro trivial (List.forall_mem_singleton.2 ?_)) ?_)
    all_goals solve_by_elim [Suits.free, Suits.allowIn, Suits.anyIn, Suits.head, Suits.of_allowIn,
      Suits.of_forbidIn, suits_anywhere, suits_body, Suits.arrow]
  case method | methodProperty =>
    refine .intro trivial (scoped_pair ?_ (.intro trivial (scoped_pair ?_ ?_)))
    all_goals solve_by_elim [Suits.free, Suits.allowIn, Suits.anyIn, Suits.head, Suits.of_allowIn,
      Suits.of_forbidIn, suits_anywhere, suits_body, Suits.arrow]
  case arrowName =>
    exact .intro trivial (scoped_pair (.intro trivial (scoped_pair (scoped_leaf trivial rfl)
      (scoped_leaf trivial rfl))) (scoped_leaf trivial rfl))
  case leftVars =>
    refine .intro trivial (List.forall_mem_singleton.2 (.intro trivial (scoped_pair
      (.intro trivial (scoped_pair ?_ (scoped_leaf trivial rfl))) (scoped_leaf trivial rfl))))
    solve_by_elim [Suits.free, Suits.allowIn, Suits.anyIn, Suits.head, Suits.of_allowIn,
      Suits.of_forbidIn, suits_anywhere, suits_body, Suits.arrow]

end Grammar

/-- In every program that parses, the nearest function around an `await` is
async, the nearest one around a `yield` is a generator, and no `in` stands bare
in the head of a loop. -/
theorem Program.ofSource_scoped {source : String} {p : Program} (h : ofSource source = .ok p) :
    (∀ sc sp e, Tree.Holds .top (.stmts p) sc (.expr (.await sp e)) →
      ∃ isGenerator, sc.function = some (true, isGenerator)) ∧
    (∀ sc sp delegate e, Tree.Holds .top (.stmts p) sc (.expr (.yield sp delegate e)) →
      ∃ isAsync, sc.function = some (isAsync, true)) ∧
    ∀ sc sp e e', Tree.Holds .top (.stmts p) sc (.expr (.binary sp .inside e e')) →
      sc.inHead = false := by
  obtain ⟨j, hspells, -⟩ := spells_of_ofSource h
  have hscoped : (Tree.stmts p).Scoped .top := hspells.scoped .top ⟨nofun, nofun, nofun⟩ _ (.head _)
  exact ⟨fun _ _ _ => hscoped _ _, fun _ _ _ _ => hscoped _ _, fun _ _ _ _ => hscoped _ _⟩

/-- A loop in an async function, its head with an `in` between brackets. -/
theorem Program.ofSource_scoped_loop :
    ∃ p, ofSource "async function f()\x7bfor(i=[a in b];;)await i\x7d" = .ok p ∧
      ∀ sc sp e, Tree.Holds .top (.stmts p) sc (.expr (.await sp e)) →
        ∃ isGenerator, sc.function = some (true, isGenerator) := by
  have hrun : (ofSource "async function f()\x7bfor(i=[a in b];;)await i\x7d").toOption.any
      (fun _ => true) = true := by decide +kernel
  obtain ⟨p, hsource, -⟩ := exists_ok_of_any hrun
  exact ⟨p, hsource, (ofSource_scoped hsource).1⟩

end ScriptBundler
