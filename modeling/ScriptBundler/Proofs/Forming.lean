import ScriptBundler.Proofs.WellFormed
import ScriptBundler.Proofs.Nodes
import ScriptBundler.Proofs.Subtrees
import ScriptBundler.Proofs.Leading

/-!
# Scripts spell well-formed trees

What a range of tokens spells is well formed.
-/

namespace ScriptBundler

def Node.isRegex : Node → Bool
  | .expr (.regex _ _ _) => true
  | _ => false

theorem Expr.listNodes_eq (es : List Expr) : Expr.listNodes es = es.flatMap Expr.nodes :=
  eq_flatMap_of_cons rfl (fun _ _ => rfl) es

theorem Expr.elementNodes_eq (es : List (Option Expr)) :
    Expr.elementNodes es = es.flatMap Expr.optionNodes :=
  eq_flatMap_of_cons rfl (fun _ _ => rfl) es

theorem Property.listNodes_eq (ps : List Property) :
    Property.listNodes ps = ps.flatMap Property.nodes :=
  eq_flatMap_of_cons rfl (fun _ _ => rfl) ps

theorem Param.listNodes_eq (ps : List Param) : Param.listNodes ps = ps.flatMap Param.nodes :=
  eq_flatMap_of_cons rfl (fun _ _ => rfl) ps

theorem ArrayElement.listNodes_eq (es : List ArrayElement) :
    ArrayElement.listNodes es = es.flatMap ArrayElement.nodes :=
  eq_flatMap_of_cons rfl (fun _ _ => rfl) es

theorem ObjectElement.listNodes_eq (es : List ObjectElement) :
    ObjectElement.listNodes es = es.flatMap ObjectElement.nodes :=
  eq_flatMap_of_cons rfl (fun _ _ => rfl) es

namespace Grammar

variable {ts : Stream} {i j : Nat} {k : Token.Kind} {rd : Reading} {H : Ending} {ph : Phrase}

open Grammar.Parser

/-- The tokens that a lead stands for. -/
structure LeadAt (ts : Stream) (i : Nat) (lead : Lead) : Prop where
  brace : ts.kindAt i = .punct .lBrace ↔ lead = .brace
  function : ts.kindAt i = .keyword .kwFunction ↔ lead = .function
  classWord : ts.kindAt i = .keyword .kwClass ↔ lead = .classWord
  asyncFunction : ts.kindAt i = .keyword .kwAsync ∧
    ts.kindAt (ts.past i) = .keyword .kwFunction ↔ lead = .asyncFunction

def Phrase.lead? : Phrase → Option Lead
  | .expr _ e => some (exprLead e)
  | .binding _ b => if isPattern b then some (bindingLead b) else none
  | .func f => some (if f.isAsync then .asyncFunction else .function)
  | .funcRest _ => some .function
  | .classRest _ _ _ _ => some .classWord
  | .arrowHead _ _ => some .other
  | _ => none

theorem LeadAt.of_kind (h : ts.kindAt i = k) (hbrace : k ≠ .punct .lBrace)
    (hfunction : k ≠ .keyword .kwFunction) (hclass : k ≠ .keyword .kwClass)
    (hasync : k = .keyword .kwAsync → ts.kindAt (ts.past i) ≠ .keyword .kwFunction) :
    LeadAt ts i .other := by
  subst h
  constructor <;> grind -linarith

theorem Derives.isPattern {cx : Context} {b : Binding} {mark : Punctuator}
    (h : Derives rd H (.binding cx b) i j) (hk : rd.kindAt i = .punct mark) :
    isPattern b = true := by
  cases h with
  | bound hname =>
    rw [hk] at hname
    cases hname
  | boundArray | boundObject => rfl

theorem Derives.leadAt (h : Derives rd H ph i j) : ∀ lead ∈ ph.lead?, LeadAt rd i lead := by
  induction h with
  | null hreads | trueWord hreads | falseWord hreads | this hreads | super hreads
  | number hreads | array hreads | paren hreads | new hreads | newBare hreads | await hreads
  | delegate hreads | yieldValue hreads | yieldNothing hreads | boundArray hreads =>
    rintro _ ⟨⟩
    exact .of_kind hreads.1 nofun nofun nofun nofun
  | string hstring =>
    rintro _ ⟨⟩
    exact .of_kind hstring.1 nofun nofun nofun nofun
  | ident hword =>
    rintro _ ⟨⟩
    exact .of_kind hword.1.1 nofun nofun nofun nofun
  | asyncIdent hreads _ hk =>
    rintro _ ⟨⟩
    refine .of_kind hreads.1 nofun nofun nofun fun _ => ?_
    rw [hreads.2.1]
    exact hk
  | regex hregex =>
    rintro _ ⟨⟩
    rcases hregex.kindAt_eq with hk | hk <;> exact .of_kind hk nofun nofun nofun nofun
  | quasi htemplate =>
    rintro _ ⟨⟩
    cases htemplate with
    | template hk => exact .of_kind hk nofun nofun nofun nofun
  | unary hreads hop | leading hreads hop =>
    rintro _ ⟨⟩
    refine .of_kind hreads.1 ?_ ?_ ?_ ?_ <;> rintro rfl <;> cases hop
  | object hreads | boundObject hreads | funcRest hreads | classRest hreads =>
    rintro _ ⟨⟩
    have hk := hreads.1
    constructor <;> grind -linarith [exprLead, bindingLead]
  | function _ _ ih | «class» _ _ ih | dot _ _ _ _ _ _ _ _ ih | index _ _ _ _ _ _ ih
  | call _ _ _ _ _ ih
  | tagged _ _ _ _ ih | arrow _ _ _ _ _ ih | arrowBlock _ _ _ ih | trailing _ _ _ _ _ _ ih
  | binary _ _ _ _ _ _ _ ih | conditional _ _ _ _ _ _ _ _ _ ih | assign _ _ _ _ _ _ _ ih
  | sequence _ _ _ _ ih =>
    exact ih
  | assignPattern htarget hk _ _ _ _ ih =>
    rintro _ ⟨⟩
    exact ih _ (by rw [Phrase.lead?, htarget.isPattern hk]; rfl)
  | func hf _ _ ih =>
    rintro _ ⟨⟩
    rw [hf]
    exact ih _ rfl
  | asyncFunc hf hreads _ _ ih =>
    rintro _ ⟨⟩
    have hk := hreads.1
    have hnext := (ih _ rfl).function.mpr rfl
    rw [← hreads.2.1] at hnext
    rw [hf]
    constructor <;> simp [hk, hnext]
  | arrowName hasync hname =>
    rintro _ ⟨⟩
    cases hasync with
    | yes hreads =>
      refine .of_kind hreads.1 nofun nofun nofun fun _ => ?_
      rw [hreads.2.1, hname.1.1]
      exact nofun
    | no => exact .of_kind hname.1.1 nofun nofun nofun nofun
  | arrowParams hasync hparen =>
    rintro _ ⟨⟩
    cases hasync with
    | yes hreads =>
      refine .of_kind hreads.1 nofun nofun nofun fun _ => ?_
      rw [hreads.2.1, hparen.1]
      exact nofun
    | no => exact .of_kind hparen.1 nofun nofun nofun nofun
  | _ => exact nofun

theorem Derives.arrowHead_second {isAsync : Bool} {params : List Param}
    (h : Derives rd H (.arrowHead isAsync params) i j) (hk : rd.kindAt i = .identifier) :
    rd.kindAt (rd.past i) = .punct .arrow := by
  cases h with
  | arrowName hasync hname _ harrow =>
    cases hasync with
    | yes hreads => cases hreads.1.symm.trans hk
    | no =>
      rw [hname.1.2.1]
      exact harrow.1
  | arrowParams hasync hparen =>
    cases hasync with
    | yes hreads => cases hreads.1.symm.trans hk
    | no => cases hparen.1.symm.trans hk

def Phrase.isExpr : Phrase → Bool
  | .expr _ _ => true
  | _ => false

theorem Derives.not_colon (h : Derives rd H ph i j) (hk : rd.kindAt i = .identifier)
    (hcolon : rd.kindAt (rd.past i) = .punct .colon) : ph.isExpr = true → rd.past i = j := by
  induction h with
  | null hreads | trueWord hreads | falseWord hreads | this hreads | super hreads
  | number hreads | array hreads | paren hreads | new hreads | newBare hreads | await hreads
  | delegate hreads | yieldValue hreads | yieldNothing hreads | object hreads | asyncIdent hreads =>
    cases hreads.1.symm.trans hk
  | string hstring => cases hstring.1.symm.trans hk
  | ident hword => exact fun _ => hword.1.2.1
  | regex hregex => rcases hregex.kindAt_eq with hslash | hslash <;> cases hslash.symm.trans hk
  | quasi htemplate =>
    cases htemplate with
    | template hquote => cases hquote.symm.trans hk
  | unary hreads hop | leading hreads hop =>
    rw [hreads.1] at hk
    subst hk
    cases hop
  | function hfunc =>
    cases hfunc with
    | func _ hrest =>
      cases hrest with
      | funcRest hreads => cases hreads.1.symm.trans hk
    | asyncFunc _ hreads => cases hreads.1.symm.trans hk
  | «class» hrest =>
    cases hrest with
    | classRest hreads => cases hreads.1.symm.trans hk
  | assignPattern _ hpunct => cases hpunct.symm.trans hk
  | dot _ _ hreads _ _ _ _ _ ih | index _ _ hreads _ _ _ ih | call _ _ hreads _ _ ih
  | conditional _ _ hreads _ _ _ _ _ _ ih =>
    rw [ih hk hcolon rfl, hreads.1] at hcolon
    cases hcolon
  | tagged _ _ htemplate _ ih =>
    rw [ih hk hcolon rfl] at hcolon
    cases htemplate with
    | template hquote => cases hquote.symm.trans hcolon
  | trailing _ _ _ hreads hop _ ih | assign _ _ hreads hop _ _ _ ih =>
    rw [ih hk hcolon rfl, hreads.1] at hcolon
    subst hcolon
    cases hop
  | binary _ _ hreads hop _ _ _ ih =>
    rw [ih hk hcolon rfl, hreads.1] at hcolon
    subst hcolon
    rw [infixOp?, if_neg (by simp)] at hop
    cases hop
  | sequence _ _ hothers _ ih =>
    rw [ih hk hcolon rfl] at hcolon
    cases hothers with
    | other hreads | moreOthers hreads => cases hreads.1.symm.trans hcolon
  | arrow hhead | arrowBlock hhead =>
    rw [hhead.arrowHead_second hk] at hcolon
    cases hcolon
  | _ => exact nofun

theorem LeadAt.eq_other {lead : Lead} (h : LeadAt ts i lead)
    (hopens : opensStatement (ts.kindAt i) (ts.kindAt (ts.past i)) = false) : lead = .other := by
  cases lead with
  | brace =>
    rw [h.brace.mpr rfl] at hopens
    cases hopens
  | function =>
    rw [h.function.mpr rfl] at hopens
    cases hopens
  | asyncFunction =>
    obtain ⟨hasync, hfunction⟩ := h.asyncFunction.mpr rfl
    rw [hasync, hfunction] at hopens
    cases hopens
  | classWord =>
    rw [h.classWord.mpr rfl] at hopens
    cases hopens
  | other => rfl

theorem not_opensStatement_of_startsExpr {k second : Token.Kind} (h : startsExpr k = true)
    (hbrace : k ≠ .punct .lBrace) (hfunction : k ≠ .keyword .kwFunction)
    (hclass : k ≠ .keyword .kwClass)
    (hasync : k = .keyword .kwAsync → second ≠ .keyword .kwFunction)
    (hname : k = .identifier → second ≠ .punct .colon) : opensStatement k second = false := by
  unfold opensStatement
  split
  · exact decide_eq_false (hname rfl)
  · exact absurd rfl hbrace
  · cases h
  · exact decide_eq_false (hasync rfl)
  · rename_i word hword
    cases word <;> first
      | rfl
      | exact absurd rfl hfunction
      | exact absurd rfl hclass
      | cases h
  · rfl

theorem Derives.not_opensStatement {cx : Context} {e : Expr} (h : Derives rd H (.expr cx e) i j)
    (hlead : exprLead e = .other) (hcolon : rd.kindAt j ≠ .punct .colon) :
    opensStatement (rd.kindAt i) (rd.kindAt (rd.past i)) = false := by
  have hat : LeadAt rd i .other := hlead ▸ h.leadAt _ rfl
  refine not_opensStatement_of_startsExpr h.opens (fun hk => ?_) (fun hk => ?_) (fun hk => ?_)
    (fun hk hk' => ?_) (fun hk hk' => ?_)
  · exact nomatch hat.brace.mp hk
  · exact nomatch hat.function.mp hk
  · exact nomatch hat.classWord.mp hk
  · exact nomatch hat.asyncFunction.mp ⟨hk, hk'⟩
  · exact hcolon (h.not_colon hk hk' rfl ▸ hk')

theorem Derives.not_else (h : Derives rd H ph i j) : ∀ cx s, ph = .stmt cx s → endsOpen s = true →
      rd.kindAt j ≠ .keyword .kwElse := by
  induction h with
  | ifThen _ _ _ hk =>
    rintro _ _ ⟨⟩ _
    exact hk
  | ifElse _ _ _ _ _ _ _ _ ih | whileLoop _ _ _ _ _ ih | labeled _ _ _ _ ih
  | forLoop _ _ _ _ _ _ _ _ _ _ _ _ _ ih | forIn _ _ _ _ _ _ _ _ _ _ ih
  | forOf _ _ _ _ _ _ _ _ _ _ _ ih =>
    rintro _ _ ⟨⟩ hopen
    exact ih _ _ rfl hopen
  | _ =>
    rintro _ _ ⟨⟩ hopen <;> cases hopen

def itemNodes (c : ItemClass) : c.Item → List Node :=
  match c with
  | .param => Param.nodes
  | .arg => Expr.nodes
  | .element => Expr.optionNodes
  | .property => Property.nodes
  | .arrayElement => ArrayElement.nodes
  | .objectElement => ObjectElement.nodes
  | .importName | .exportName => fun _ => []

def Phrase.nodes : Phrase → List Node
  | .expr _ e | .exported _ e | .condition _ e => e.nodes
  | .others _ es => Expr.listNodes es
  | .items _ c xs => xs.flatMap (itemNodes c)
  | .item _ c x => itemNodes c x
  | .key _ k => k.nodes
  | .binding _ b => b.nodes
  | .value _ v | .optional _ v | .parent _ v => Expr.optionNodes v
  | .func f | .funcRest f => f.nodes
  | .callable _ params body => Param.listNodes params ++ Stmt.listNodes body
  | .arrowHead _ params => Param.listNodes params
  | .classRest _ _ base ms => Expr.optionNodes base ++ ClassMember.listNodes ms
  | .members _ ms => ClassMember.listNodes ms
  | .member _ m => m.nodes
  | .block _ body | .stmts _ _ body => Stmt.listNodes body
  | .stmt _ s => s.nodes
  | .decls _ ds => Declarator.listNodes ds
  | .decl _ d => d.nodes
  | .forLeft _ init | .forInit _ init => init.nodes
  | .cases _ cs => SwitchCase.listNodes cs
  | .case _ c => c.nodes
  | .handler _ param body => Binding.optionNodes param ++ Stmt.listNodes body
  | .template _ _ | .templateRest _ | .substitution _ | .importList _ | .importClause _ => []

/-- The texts of a stream are among those that are allowed. -/
structure Texts.Covers (T : Texts) (rd : Reading) : Prop where
  word {i : Nat} {k : Token.Kind} : rd.kindAt i = k → k ≠ .endOfInput → T.word k (rd.textAt i)
  string {raw : String} {i j : Nat} : rd.StringAt raw i j → T.string raw
  template {cx : Context} {raw : String} {i j : Nat} : Spells rd (.template cx raw) i j →
    T.template cx raw

section
variable {T : Texts} {name : String}

theorem Texts.covers_script {cs : List Char} (hcs : rd.Holds (Lexeme.lexemes cs)) :
    Texts.script.Covers rd where
  word hk hend := by
    subst hk
    exact hcs.lexemes_token hend
  string hstring := ⟨rd, cs, _, _, hcs, hstring⟩
  template htemplate := ⟨rd, cs, _, _, hcs, htemplate⟩

namespace Texts.Covers

theorem worded (h : T.Covers rd) (hk : rd.kindAt i = k) (hend : k ≠ .endOfInput)
    (htext : rd.textAt i = name) : T.word k name :=
  htext ▸ h.word hk hend

theorem isName (h : T.Covers rd) (hk : (rd.kindAt i).isName = true) (htext : rd.textAt i = name) :
    T.IsName name := by
  refine ⟨_, hk, h.worded rfl (fun hend => ?_) htext⟩
  rw [hend] at hk
  cases hk

theorem isVariable (h : T.Covers rd) (hk : namesVariable (rd.kindAt i) = true)
    (htext : rd.textAt i = name) : T.IsVariable name := by
  refine ⟨_, hk, h.worded rfl (fun hend => ?_) htext⟩
  rw [hend] at hk
  cases hk

theorem mayName (h : T.Covers rd) {name : Option String} (hname : rd.MayName name i j) :
    ∀ text ∈ name, T.word .identifier text := by
  cases hname with
  | yes hword =>
    rintro _ ⟨⟩
    exact h.worded hword.1.1 nofun hword.2
  | no => exact nofun

end Texts.Covers

theorem Reading.MethodStartAt.kinds {kind : MethodKind} {isAsync isGenerator : Bool}
    (h : rd.MethodStartAt ⟨kind, isAsync, isGenerator⟩ i j) :
    kind = .method ∨ isAsync = false ∧ isGenerator = false := by
  cases h with
  | named | async | plain => exact .inl rfl
  | get | set => exact .inr ⟨rfl, rfl⟩

end

/-- What tokens spell is well formed. -/
theorem Derives.formed {T : Texts} (hT : T.Covers rd) (h : Spells rd ph i j) :
    (∀ n ∈ ph.nodes, n.isRegex = true → T.regex) → Formed T ph := by
  induction h with intro hfree
  | regex => exact .regex (hfree _ List.mem_cons_self rfl)
  | number hreads htext => exact .number (hT.worded hreads.1 nofun htext)
  | string hstring => exact .string (hT.string hstring)
  | ident hword => exact .ident (hT.isVariable (by rw [hword.1.1]; rfl) hword.2)
  | asyncIdent hreads htext =>
    exact .ident (hT.isVariable (by rw [hreads.1]; rfl) htext)
  | dot _ hobject _ hname htext _ _ _ ih =>
    exact .dot (ih (List.forall_mem_cons.mp hfree).2) hobject (hT.isName hname htext)
  | tagged _ htag _ _ ih ih' =>
    exact .tagged (ih (List.forall_mem_cons.mp hfree).2) htag (ih' nofun)
  | assignPattern htarget hk _ _ hlevel _ ih ih' =>
    exact .assignPattern (ih fun n hn => hfree n (by simp_all [Phrase.nodes, Expr.nodes]))
      (htarget.isPattern hk) (ih' fun n hn => hfree n (by simp_all [Phrase.nodes, Expr.nodes])) hlevel
  | arrow _ hk hbody hlevel _ ih ih' =>
    refine .arrow (ih fun n hn => hfree n (by simp_all [Phrase.nodes, Expr.nodes])) (fun hlead => hk ?_)
      (ih' fun n hn => hfree n (by simp_all [Phrase.nodes, Expr.nodes])) hlevel
    exact (hbody.leadAt _ rfl).brace.mpr hlead
  | moreItems _ _ _ ih ih' =>
    exact .moreItems (ih fun n hn => hfree n (by simp_all [Phrase.nodes]))
      (ih' fun n hn => hfree n (by simp_all [Phrase.nodes]))
  | lastItem _ _ ih =>
    exact .moreItems (ih fun n hn => hfree n (by simp_all [Phrase.nodes])) .noItems
  | methodProperty hstart _ _ _ ih ih' =>
    exact .methodProperty hstart.kinds (ih (List.forall_mem_append.mp hfree).1)
      (ih' (List.forall_mem_append.mp hfree).2)
  | shorthand _ hname => exact .shorthand (hT.worded hname.1.1 nofun hname.2)
  | objectRest _ hname => exact .objectRest (hT.worded hname.1.1 nofun hname.2)
  | objectShort hname _ _ _ ih =>
    exact .objectShort (hT.worded hname.1.1 nofun hname.2) (ih hfree)
  | imported hname htext => exact .imported (hT.isName hname htext) (.inl rfl)
  | importedAs hname htext _ _ hname' htext' =>
    exact .imported (hT.isName hname htext) (.inr (hT.isVariable hname' htext'))
  | exportedName hname htext =>
    exact .exportedName (hT.isName hname htext) (hT.isName hname htext)
  | exportedAs hname htext _ _ hname' htext' =>
    exact .exportedName (hT.isName hname htext) (hT.isName hname' htext')
  | keyName hname htext => exact .keyName (hT.isName hname htext)
  | keyString hstring => exact .keyString (hT.string hstring)
  | keyNumber hreads htext => exact .keyNumber (hT.worded hreads.1 nofun htext)
  | bound hname htext => exact .bound (hT.isVariable hname htext)
  | template hk hrest htext hadmits =>
    exact .template (hT.template (.template hk hrest htext hadmits))
  | funcRest _ _ hname _ ih => exact .funcRest (hT.mayName hname) (ih hfree)
  | arrowName _ hname =>
    exact .arrowHead (.moreItems (.plainParam
      (.bound (hT.isVariable (by rw [hname.1.1]; rfl) hname.2)) .noValue) .noItems)
  | classRest _ hname _ _ _ ih ih' =>
    exact .classRest (hT.mayName hname) (ih (List.forall_mem_append.mp hfree).1)
      (ih' (List.forall_mem_append.mp hfree).2)
  | skipMember _ _ ih => exact ih hfree
  | method _ hstart _ _ _ _ ih ih' =>
    exact .method hstart.kinds (ih (List.forall_mem_append.mp hfree).1)
      (ih' (List.forall_mem_append.mp hfree).2)
  | labeled hname _ _ _ ih =>
    exact .labeled (hT.worded hname.1.1 nofun hname.2) (ih (List.forall_mem_cons.mp hfree).2)
  | exprStmt hopens hexpr _ _ _ ih =>
    exact .exprStmt ((hexpr.leadAt _ rfl).eq_other hopens) (ih (List.forall_mem_cons.mp hfree).2)
  | ifElse _ _ hyes helse _ _ ih ih' ih'' =>
    refine .ifElse (ih fun n hn => hfree n ?_) (ih' fun n hn => hfree n ?_)
      (Bool.eq_false_iff.mpr fun hopen => hyes.not_else _ _ rfl hopen helse.1)
      (ih'' fun n hn => hfree n ?_) <;>
    · simp only [Phrase.nodes, Stmt.nodes, List.mem_cons, List.mem_append] at hn ⊢
      simp only [hn, true_or, or_true]
  | ret _ _ _ _ _ _ ih =>
    exact .ret (.given (ih (List.forall_mem_cons.mp hfree).2))
  | retNothing => exact .ret .left_out
  | breakTo _ _ hname | continueTo _ _ hname =>
    constructor
    rintro _ ⟨⟩
    exact hT.worded hname.1.1 nofun hname.2
  | breakOut | continueOn =>
    constructor
    exact nofun
  | importOnly _ hstring =>
    exact .importFrom (.clauseList (.importNames .noItems)) (hT.string hstring)
  | importFrom _ _ _ hstring _ _ ih =>
    exact .importFrom (ih nofun) (hT.string hstring)
  | clauseDefault hname htext =>
    exact .clauseBoth (hT.isVariable hname htext) (.importNames .noItems)
  | clauseBoth hname htext _ _ _ ih =>
    exact .clauseBoth (hT.isVariable hname htext) (ih nofun)
  | importAll _ _ hname htext => exact .importAll (hT.isVariable hname htext)
  | importNames _ _ ih =>
    exact .importNames (ih (by simp [Phrase.nodes, itemNodes]))
  | exportedValue hfunction hclass hasync hexpr hlevel _ _ ih =>
    refine .exportedValue ?_ (ih hfree) hlevel
    have hat := hexpr.leadAt _ rfl
    cases hlead : exprLead _ with
    | brace => exact .inr rfl
    | function => exact absurd (hat.function.mpr hlead) hfunction
    | asyncFunction => exact absurd (hat.asyncFunction.mpr hlead) hasync
    | classWord => exact absurd (hat.classWord.mpr hlead) hclass
    | other => exact .inl rfl
  | exportAll _ _ _ hstring => exact .exportAll (hT.string hstring)
  | exportNames _ _ _ _ _ _ ih =>
    exact .exportNamed (ih (by simp [Phrase.nodes, itemNodes])) nofun
  | exportFrom _ _ _ _ hstring _ _ ih =>
    refine .exportNamed (ih (by simp [Phrase.nodes, itemNodes])) ?_
    rintro _ ⟨⟩
    exact hT.string hstring
  | exportDecl _ _ _ ih =>
    refine .exportDecl (ih fun n hn => ?_)
    rcases List.mem_cons.mp hn with rfl | hn
    · exact nofun
    · exact hfree n (List.mem_cons_of_mem _ hn)
  | _ =>
    constructor <;> first
          | with_reducible assumption
          | (refine (by with_reducible assumption : _ → Formed T _) fun n hn => hfree n ?_
             simp only [Phrase.nodes, itemNodes, Expr.nodes, Expr.listNodes_eq,
                Expr.elementNodes_eq, Property.listNodes_eq, Param.listNodes_eq,
                ArrayElement.listNodes_eq, ObjectElement.listNodes_eq, Stmt.listNodes,
                ClassMember.listNodes, SwitchCase.listNodes, Declarator.listNodes,
                Expr.optionNodes, Property.nodes, PropertyKey.nodes, Param.nodes,
                ClassMember.nodes, Binding.nodes, Binding.optionNodes, ArrayElement.nodes,
                ObjectElement.nodes, Declarator.nodes, ForInit.nodes, SwitchCase.nodes,
                Declaration.nodes, Stmt.nodes, List.flatMap_cons, List.flatMap_nil,
                List.mem_append, List.mem_cons] at hn ⊢
             first
               | simp only [hn, true_or, or_true]
               | grind -linarith)

end Grammar
end ScriptBundler
