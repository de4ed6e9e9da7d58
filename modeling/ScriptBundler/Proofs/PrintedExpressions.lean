import ScriptBundler.Proofs.PrintedStream
import ScriptBundler.Proofs.Completeness
import ScriptBundler.Proofs.Forming

/-!
# Printed expressions are read back

What is printed for a well-formed expression spells this expression, as long as
the token behind it does not go on with it.  Each lemma puts a phrase together
from its printed parts.
-/

namespace ScriptBundler
namespace Grammar

open Grammar.Parser Grammar.Stream Piece

variable {op : BinaryOp} {b : Binding} {name : String} {callee : Expr}
  {isAsync isGenerator isStatic : Bool} {params : List Param} {body : List Stmt} {c : ItemClass}
  {key : PropertyKey} {v : Option Expr}

/-!
# Tokens behind a phrase

A phrase ends where it does because of the token behind it.
-/

def endsOperand : Token.Kind → Bool
  | .identifier | .number | .keyword .kwFunction => false
  | _ => true

/-- The tokens that may stand behind an expression.  Behind operators, what
would go on with an operand is left out. -/
def ExprFollow (e : Expr) (k : Token.Kind) : Prop :=
  endsYield k = true ∨ Level.conditional < e.level ∧ endsOperand k = true ∧
    (startsTail k = false ∨ IsObject e)

def EndsItem (c : ItemClass) (k : Token.Kind) : Prop :=
  k = .punct .comma ∨ k = .punct c.close

def Phrase.Follow : Phrase → Token.Kind → Prop
  | .expr _ e, k => ExprFollow e k
  | .others _ _, k | .value _ _, k | .decl _ _, k | .optional _ _, k => endsYield k = true
  | .item _ .arg _, k => endsYield k = true
  | .item _ c _, k => EndsItem c k
  | .decls _ _, k | .forInit _ _, k => k = .punct .semicolon
  | .parent _ _, k => k = .punct .lBrace
  | .stmts _ stop _, k => (k = .endOfInput ∨ k ∈ stop) ∧ ∀ x ∈ stop, x ∈ caseStops
  | .stmt _ s, k => k ≠ .keyword .kwFinally ∧ (k = .keyword .kwElse → endsOpen s = false)
  | .case _ _, k => k ∈ caseStops
  | .importList specifiers, _ => specifiers ≠ []
  | .importClause specifiers, k => specifiers ≠ [] ∧ k ≠ .punct .comma
  | .templateRest _, _ | .substitution _, _ => False
  | _, _ => True

def Phrase.printed : Phrase → List Piece
  | .condition _ e => parens e.pieces
  | ph => ph.pieces

/-- The tokens that were printed for a phrase spell it. -/
def Phrase.ReadsBack (ts : Stream) (ph : Phrase) : Prop :=
  ∀ i j, ts.Prints ph.printed i j → ts.Flush j → ph.Follow (ts.kindAt j) →
    Spells ts.reading ph i j

section
variable {ts : Stream} {cx : Context} {e e' : Expr} {k : Token.Kind} {sp sp' : Span} {i j m : Nat}

theorem ExprFollow.of_kind (hk : ts.kindAt m = k) (h : endsYield k = true) :
    ExprFollow e (ts.kindAt m) :=
  .inl (hk ▸ h)

theorem ExprFollow.of_operand (hk : ts.kindAt m = k) (hlevel : Level.conditional < e.level)
    (h : endsOperand k = true) (htail : startsTail k = false) : ExprFollow e (ts.kindAt m) :=
  .inr ⟨hlevel, hk ▸ h, .inl (hk ▸ htail)⟩

theorem ExprFollow.of_object (hk : ts.kindAt m = k) (hobject : IsObject e)
    (h : endsOperand k = true) : ExprFollow e (ts.kindAt m) :=
  .inr ⟨Level.conditional_lt_of_closed hobject.1, hk ▸ h, .inr hobject⟩

theorem ExprFollow.operand (h : ExprFollow e k) (hlevel : Level.conditional < e'.level)
    (hopen : ¬ IsObject e) : ExprFollow e' k :=
  h.imp_right fun h => ⟨hlevel, h.2.1, h.2.2.imp_right fun hobject => absurd hobject hopen⟩

theorem ExprFollow.ends (h : ExprFollow e k)
    (hlevel : decide (Level.conditional < e.level) = false) : endsYield k = true :=
  h.resolve_right fun h => of_decide_eq_false hlevel h.1

theorem ExprFollow.endsOperand (h : ExprFollow e k) : endsOperand k = true := by
  rcases h with h | h
  · unfold endsYield at h
    split at h
    all_goals first | rfl | cases h
  · exact h.2.1

theorem startsTail_of_endsYield (h : endsYield k = true) : startsTail k = false := by
  unfold endsYield at h
  split at h
  all_goals first | rfl | cases h

theorem ofKind?_of_infixOp? {noIn : Bool} (h : infixOp? noIn k = some op) :
    BinaryOp.ofKind? k = some op := by
  unfold infixOp? at h
  split at h
  · cases h
  · exact h

theorem infix_ends (h : BinaryOp.ofKind? k = some op) :
    k.isFixed = true ∧ endsOperand k = true ∧ startsTail k = false := by
  unfold BinaryOp.ofKind? at h
  split at h
  all_goals first | exact ⟨rfl, rfl, rfl⟩ | cases h

theorem not_isObject_binary (sp : Span) (op : BinaryOp) (left right : Expr) :
    ¬ IsObject (.binary sp op left right) := by
  intro h
  have hbounds := BinaryOp.level_bounds op
  have hclosed : op.level = 255 := h.1
  omega

theorem IsObject.of_constructs (h : constructs e = true) : IsObject e := by
  refine ⟨closed_of_constructs (.inl h), ?_⟩
  cases e with
  | newBare => cases h
  | _ => rfl

theorem Phrase.ReadsBack.fit {required : Nat} (h : (Phrase.expr cx e).ReadsBack ts)
    (hlevel : required ≤ e.level) (hprints : ts.Prints (e.fit required e.pieces) i j)
    (hflush : ts.Flush j) (hfollow : ExprFollow e (ts.kindAt j)) :
    Spells ts.reading (.expr cx e) i j := by
  rw [Expr.fit_of_le hlevel] at hprints
  exact h i j hprints hflush hfollow

theorem readsBack_dot {object : Expr} (ih : (Phrase.expr cx object).ReadsBack ts)
    (hobject : IsObject object) (hname : IsName name) :
    (Phrase.expr cx (.dot sp object sp' name)).ReadsBack ts := by
  intro i j hprints _ _
  obtain ⟨m, i₁, i₂, hobjectPrints, hblank, hpoint, hproperty⟩ := hprints.split₄
  have hpoint := hpoint.mark .dot
  obtain rfl : m = i₁ := by
    split at hblank
    · exact prints_blank.mp hblank
    · exact prints_nil.mp hblank
  obtain ⟨k, hk, hshows⟩ := Prints.name hproperty hname
  exact .dot (ih.fit (by rw [hobject.1]; decide) hobjectPrints hpoint.flush
    (.of_object hpoint.kind hobject rfl)) hobject hpoint.reads (hshows.kind ▸ hk) hshows.text
    hshows.reads.2 trivial trivial

theorem readsBack_new {args : List Expr} (ih : (Phrase.expr cx callee).ReadsBack ts)
    (hconstructs : constructs callee = true)
    (ih' : (Phrase.items cx.allowIn .arg args).ReadsBack ts) :
    (Phrase.expr cx (.new sp callee args)).ReadsBack ts := by
  intro i j hprints hflush _
  have hobject := IsObject.of_constructs hconstructs
  change ts.Prints (_ ++ parens (commas (Expr.listPieces args))) i j at hprints
  rw [pieces_args] at hprints
  obtain ⟨i₁, i₂, hnew, hcallee, hprints⟩ := hprints.split₃
  obtain ⟨i₃, hopen, hargs⟩ := hprints.split
  have hopen := hopen.mark .lParen
  exact .new (hnew.keyword .kwNew).reads (ih.fit (by rw [hobject.1]; decide) hcallee hopen.flush
    (.of_object hopen.kind hobject rfl)) hconstructs hopen.reads (ih' _ _ hargs hflush trivial)
    trivial

theorem readsBack_newBare (ih : (Phrase.expr cx callee).ReadsBack ts)
    (hconstructs : constructs callee = true ∨ isNewBare callee = true) :
    (Phrase.expr cx (.newBare sp callee)).ReadsBack ts := by
  intro i j hprints hflush hfollow
  have hclosed := closed_of_constructs hconstructs
  have hopen : ¬ IsObject (.newBare sp callee) := fun h => nomatch h.2
  obtain ⟨i₁, hnew, hcallee⟩ := hprints.split
  have htail : startsTail (ts.kindAt j) = false := by
    rcases hfollow with hends | ⟨_, _, htail⟩
    · exact startsTail_of_endsYield hends
    · exact htail.resolve_right hopen
  exact .newBare (hnew.keyword .kwNew).reads (ih.fit (by rw [hclosed]; decide) hcallee hflush
    (hfollow.operand (Level.conditional_lt_of_closed hclosed) hopen)) hconstructs htail trivial

theorem readsBack_binary {left right : Expr} (ih : (Phrase.expr cx left).ReadsBack ts)
    (hleft : op.leftLevel ≤ left.level) (hop : infixOp? cx.noIn k = some op)
    (ih' : (Phrase.expr cx right).ReadsBack ts) (hright : op.rightLevel ≤ right.level) :
    (Phrase.expr cx (.binary sp op left right)).ReadsBack ts := by
  intro i j hprints hflush hfollow
  have hbounds := BinaryOp.level_bounds op
  have hleftLevel := BinaryOp.level_le_leftLevel op
  have hrightLevel := BinaryOp.level_le_rightLevel op
  have hkind := ofKind?_of_infixOp? hop
  obtain ⟨hfixed, hends, htail⟩ := infix_ends hkind
  obtain ⟨i₁, i₂, hfront, hword, hprints'⟩ := hprints.split₃
  rw [← BinaryOp.text_of_ofKind? hkind] at hword
  have hword := hword.fixed hfixed
  exact .binary (ih.fit hleft hfront hword.flush (.of_operand hword.kind
      (Nat.lt_of_lt_of_le (show 4 < op.leftLevel by omega) hleft) hends htail)) hleft
    hword.reads hop (ih'.fit hright hprints' hflush (hfollow.operand
      (Nat.lt_of_lt_of_le (show 4 < op.rightLevel by omega) hright)
      (not_isObject_binary sp op left right))) hright trivial

theorem readsBack_conditional {test yes no : Expr} (ih : (Phrase.expr cx test).ReadsBack ts)
    (htest : Level.conditional < test.level) (ih' : (Phrase.expr cx.allowIn yes).ReadsBack ts)
    (hyes : Level.assignment ≤ yes.level) (ih'' : (Phrase.expr cx no).ReadsBack ts)
    (hno : Level.assignment ≤ no.level) :
    (Phrase.expr cx (.conditional sp test yes no)).ReadsBack ts := by
  intro i j hprints hflush hfollow
  obtain ⟨i₂, i₃, i₄, hprints, hyesPrints, hcolon, hnoPrints⟩ := hprints.split₄
  obtain ⟨i₁, htestPrints, hquestion⟩ := hprints.split
  have hquestion := hquestion.mark .question
  have hcolon := hcolon.mark .colon
  exact .conditional (ih.fit htest htestPrints hquestion.flush
      (.of_operand hquestion.kind htest rfl rfl)) htest hquestion.reads
    (ih'.fit hyes hyesPrints hcolon.flush (.of_kind hcolon.kind rfl)) hyes hcolon.reads
    (ih''.fit hno hnoPrints hflush (.inl (hfollow.ends rfl))) hno trivial

theorem readsBack_assign {op : AssignOp} {target value : Expr}
    (ih : (Phrase.expr cx target).ReadsBack ts) (htarget : target.isAssignable = true)
    (ih' : (Phrase.expr cx value).ReadsBack ts) (hvalue : Level.assignment ≤ value.level) :
    (Phrase.expr cx (.assign sp op target value)).ReadsBack ts := by
  intro i j hprints hflush hfollow
  have hclosed := Expr.closed_of_isAssignable htarget
  obtain ⟨i₁, i₂, htargetPrints, hop, hvaluePrints⟩ := hprints.split₃
  rw [← AssignOp.text_kind] at hop
  have hop := hop.fixed (by cases op <;> rfl)
  exact .assign (ih.fit (by rw [hclosed]; decide) htargetPrints hop.flush
      (.of_operand hop.kind (Level.conditional_lt_of_closed hclosed) (by cases op <;> rfl)
        (by cases op <;> rfl))) htarget hop.reads op.ofKind?_kind
    (ih'.fit hvalue hvaluePrints hflush (.inl (hfollow.ends rfl))) hvalue trivial

theorem readsBack_yield {delegate : Bool} (hgenerator : cx.inGenerator = true)
    (ih : (Phrase.expr cx e).ReadsBack ts) (hlevel : Level.assignment ≤ e.level) :
    (Phrase.expr cx (.yield sp delegate (some e))).ReadsBack ts := by
  intro i j hprints hflush hfollow
  have hends := hfollow.ends rfl
  obtain ⟨i₁, i₂, hyield, hstar, harg⟩ := hprints.split₃
  have hyield := hyield.keyword .kwYield
  have hspells := ih.fit hlevel harg hflush (.inl hends)
  cases delegate with
  | true =>
    have hstar := Prints.mark .star hstar
    exact .delegate hyield.reads hgenerator hstar.flush.breaks hstar.reads hspells hlevel trivial
  | false =>
    obtain rfl := prints_nil.mp hstar
    exact .yieldValue hyield.reads hgenerator (harg.flush hflush).breaks hspells hlevel trivial

theorem EndsItem.ends (h : EndsItem c k) : endsYield k = true := by
  rcases h with rfl | rfl
  · rfl
  · cases c <;> rfl

theorem EndsItem.follow {x : c.Item} (h : EndsItem c k) : (Phrase.item cx c x).Follow k := by
  cases c with
  | arg => exact h.ends
  | _ => exact h

theorem readsBack_moreItems {x : c.Item} {xs : List c.Item} (ih : (Phrase.item cx c x).ReadsBack ts)
    (ih' : (Phrase.items cx c xs).ReadsBack ts) : (Phrase.items cx c (x :: xs)).ReadsBack ts := by
  intro i j hprints hflush _
  change ts.Prints (c.listPieces (x :: xs)) i j at hprints
  rw [ItemClass.listPieces] at hprints
  obtain ⟨i₁, i₂, hitem, hcomma, hitems⟩ := hprints.split₃
  split at hcomma
  · -- The last item, with the closing mark behind it.
    rename_i hlast
    obtain rfl := List.isEmpty_iff.mp (Bool.and_eq_true_iff.mp hlast).1
    obtain rfl := prints_nil.mp hcomma
    have hclose := Prints.mark c.close hitems
    exact .lastItem (ih _ _ hitem hclose.flush (EndsItem.follow (.inr hclose.kind))) hclose.reads
  · have hcomma := hcomma.mark .comma
    exact .moreItems (ih _ _ hitem hcomma.flush (EndsItem.follow (.inl hcomma.kind))) hcomma.reads
      (ih' _ _ hitems hflush trivial)

theorem Derives.methodStartAt (h : Spells ts.reading (.key cx key) i j)
    (hfollows : followsName (ts.kindAt j) = true) :
    ts.reading.MethodStartAt ⟨.method, false, false⟩ i i := by
  cases h with
  | keyName hname _ htakes =>
    refine .named (by rw [htakes.1]; exact hfollows) (.no fun hstar => ?_)
    rw [hstar] at hname
    cases hname
  | keyString hreads | keyNumber hreads | keyComputed hreads =>
    have hk := hreads.1
    exact .plain (fun h => nomatch hk.symm.trans h.1) (fun h => nomatch hk.symm.trans h)
      (.no fun h => nomatch hk.symm.trans h)

theorem startsKey_ends (h : startsKey k = true) :
    followsName k = false ∧ followsStaticName k = false ∧ k ≠ .punct .star := by
  unfold startsKey at h
  cases k with
  | punct mark =>
    cases mark with
    | lBracket => exact ⟨rfl, rfl, nofun⟩
    | _ => cases h
  | _ => exact ⟨rfl, rfl, nofun⟩

theorem methodStartAt_of_prints {kind : MethodKind}
    (hkind : kind = .method ∨ isAsync = false ∧ isGenerator = false)
    (hprints : ts.Prints (kind.pieces ++ (putIf isAsync "async " ++ putIf isGenerator "*")) i m)
    (hkey : Spells ts.reading (.key cx key) m j) (hfollows : followsName (ts.kindAt j) = true) :
    ts.reading.MethodStartAt ⟨kind, isAsync, isGenerator⟩ i m := by
  obtain ⟨hstarts, -, hstar'⟩ := startsKey_ends hkey.opens
  obtain ⟨i₁, hword, hprints⟩ := hprints.split
  obtain ⟨i₂, hasync, hstar⟩ := hprints.split
  cases kind with
  | get =>
    obtain ⟨rfl, rfl⟩ := hkind.resolve_left nofun
    obtain rfl := prints_nil.mp hasync
    obtain rfl := prints_nil.mp hstar
    have hget := (Prints.compound hword ["get"] (by decide)).contextual "get" (by decide)
    exact .get (hget.reads.2.1 ▸ hstarts) hget.readsWord
  | set =>
    obtain ⟨rfl, rfl⟩ := hkind.resolve_left nofun
    obtain rfl := prints_nil.mp hasync
    obtain rfl := prints_nil.mp hstar
    have hset := (Prints.compound hword ["set"] (by decide)).contextual "set" (by decide)
    exact .set (hset.reads.2.1 ▸ hstarts) hset.readsWord
  | method =>
    obtain rfl := prints_nil.mp hword
    cases isAsync with
    | true =>
      have hasync := (Prints.compound hasync ["async"] (by decide)).keyword .kwAsync
      cases isGenerator with
      | true =>
        have hstar := Prints.mark .star hstar
        exact .async (by rw [hasync.reads.2.1]; exact hstar.kind ▸ rfl) hasync.reads
          (.yes hstar.reads)
      | false =>
        obtain rfl := prints_nil.mp hstar
        exact .async (hasync.reads.2.1 ▸ hstarts) hasync.reads (.no hstar')
    | false =>
      obtain rfl := prints_nil.mp hasync
      cases isGenerator with
      | true =>
        have hstar := Prints.mark .star hstar
        exact .plain (fun h => nomatch hstar.kind.symm.trans h.1)
          (fun h => nomatch hstar.kind.symm.trans h) (.yes hstar.reads)
      | false =>
        obtain rfl := prints_nil.mp hstar
        exact hkey.methodStartAt hfollows

theorem Derives.staticAt {start : MethodStart} (hstart : ts.reading.MethodStartAt start i m)
    (hkey : Spells ts.reading (.key cx key) m j)
    (hfollows : followsStaticName (ts.kindAt j) = true) : ts.reading.StaticAt false i i := by
  refine .no fun hstatic => ?_
  have hi : i = m := by
    cases hstart with
    | named _ hstar | plain _ _ hstar =>
      exact hstar.opens.resolve_right fun hk => nomatch hk.symm.trans hstatic
    | get _ hword | set _ hword => exact nomatch hword.1.1.symm.trans hstatic
    | async _ hword => exact nomatch hword.1.symm.trans hstatic
  subst hi
  cases hkey with
  | keyName _ _ htakes => rw [htakes.1]; exact hfollows
  | keyString hk | keyNumber hk | keyComputed hk => exact nomatch hk.1.symm.trans hstatic

theorem readsBack_methodProperty {kind : MethodKind}
    (hkind : kind = .method ∨ isAsync = false ∧ isGenerator = false)
    (ih : (Phrase.key cx key).ReadsBack ts)
    (ih' : (Phrase.callable (Context.function isAsync isGenerator) params body).ReadsBack ts) :
    (Phrase.item cx .property
      (.method kind key ⟨sp, none, isAsync, isGenerator, params, body⟩)).ReadsBack ts := by
  intro i j hprints hflush _
  change ts.Prints (kind.pieces ++ Func.methodPieces key.pieces _) i j at hprints
  rw [pieces_method _ _ _ _ _ _ (Context.function isAsync isGenerator), ← List.append_assoc,
    ← List.append_assoc] at hprints
  obtain ⟨i₁, i₂, hwords, hkey, hcallable⟩ := hprints.split₃
  have hcallable' := ih' _ _ hcallable hflush trivial
  have hopen : ts.kindAt i₂ = .punct .lParen := of_decide_eq_true hcallable'.opens
  have hkey' := ih _ _ hkey (hcallable.flush hflush) trivial
  exact .methodProperty (methodStartAt_of_prints hkind hwords hkey' (by rw [hopen]; rfl)) hkey'
    hcallable' trivial

theorem Derives.value_kind (h : Spells ts.reading (.value cx v) i j) :
    ts.kindAt i = .punct .eq ∨ i = j := by
  cases h with
  | noValue => exact .inr rfl
  | value heq => exact .inl heq.1

theorem renamedAt {name other : String} (hprints : ts.Prints (renamedPieces name other) i j)
    (h : IsName name) : ∃ k, k.isName = true ∧
      (name = other ∧ ts.Shows k name i j ∨ name ≠ other ∧ ∃ i₁ i₂, ts.Shows k name i i₁ ∧
        ts.reading.ReadsWord "as" i₁ i₂ ∧ ts.Prints (put other) i₂ j) := by
  unfold renamedPieces at hprints
  split at hprints
  · rename_i heq
    obtain ⟨k, hk, hshows⟩ := Prints.name hprints h
    exact ⟨k, hk, .inl ⟨heq, hshows⟩⟩
  · rename_i hne
    obtain ⟨i₁, i₂, hname, has, hother⟩ := hprints.split₃
    obtain ⟨k, hk, hshows⟩ := Prints.name hname h
    have has := (Prints.compound has ["as"] (by decide)).contextual "as" (by decide)
    exact ⟨k, hk, .inr ⟨hne, i₁, i₂, hshows, has.readsWord, hother⟩⟩

theorem EndsItem.not_identifier (h : EndsItem c k) : k ≠ .identifier := by
  rcases h with rfl | rfl <;> exact nofun

theorem readsBack_exportedName {name exported : String} (h : IsName name) (h' : IsName exported) :
    (Phrase.item cx .exportName ⟨sp, name, exported⟩).ReadsBack ts := by
  intro i j hprints _ hfollow
  change ts.Prints (renamedPieces name exported) i j at hprints
  obtain ⟨k, hk, ⟨rfl, hshows⟩ | ⟨_, i₁, i₂, hshows, has, hname⟩⟩ := renamedAt hprints h
  · exact .exportedName (hshows.kind ▸ hk) hshows.text hshows.reads.2
      fun has => hfollow.not_identifier has.1
  · obtain ⟨k', hk', hname⟩ := hname.name h'
    exact .exportedAs (hshows.kind ▸ hk) hshows.text hshows.reads.2 has (hname.kind ▸ hk')
      hname.text hname.reads.2

theorem mayRead_of_prints {mark : Punctuator} {b : Bool}
    (hprints : ts.Prints (putIf b (String.ofList mark.chars)) i j)
    (hnext : ts.kindAt j ≠ .punct mark) : ts.reading.MayRead (.punct mark) b i j := by
  cases b with
  | true => exact .yes (Prints.mark mark hprints).reads
  | false =>
    obtain rfl := prints_nil.mp hprints
    exact .no hnext

theorem mayName_of_prints {name : Option String} (hprints : ts.Prints (namePieces name) i j)
    (hname : ∀ text ∈ name, Worded .identifier text) (hnext : ts.kindAt j ≠ .identifier) :
    ts.reading.MayName name i j := by
  cases name with
  | some text => exact .yes (Prints.identifier hprints (hname text rfl)).readsWord
  | none =>
    obtain rfl := prints_nil.mp hprints
    exact .no hnext

theorem Reading.MayName.kind {name : Option String} {rd : Reading} (h : rd.MayName name i j) :
    rd.kindAt i = .identifier ∨ i = j := by
  cases h with
  | yes hword => exact .inl hword.1.1
  | no => exact .inr rfl

theorem readsBack_funcRest {name : Option String} (hname : ∀ text ∈ name, Worded .identifier text)
    (ih : (Phrase.callable (Context.function isAsync isGenerator) params body).ReadsBack ts) :
    (Phrase.funcRest ⟨sp, name, isAsync, isGenerator, params, body⟩).ReadsBack ts := by
  intro i j hprints hflush _
  change ts.Prints (Phrase.pieces (.funcRest _)) i j at hprints
  rw [pieces_funcRest _ _ _ _ _ _ (Context.function isAsync isGenerator)] at hprints
  obtain ⟨m, i₂, i₃, hprints, hblank, hnamePrints, hcallable⟩ := hprints.split₄
  obtain ⟨i₁, hfunction, hstar⟩ := hprints.split
  have hspells := ih _ _ hcallable hflush trivial
  have hopen : ts.kindAt i₃ = .punct .lParen := of_decide_eq_true hspells.opens
  have hmayName := mayName_of_prints hnamePrints hname (by rw [hopen]; exact nofun)
  obtain rfl : m = i₂ := by
    split at hblank
    · exact prints_blank.mp hblank
    · exact prints_nil.mp hblank
  have hnext : ts.kindAt m ≠ .punct .star := by
    rcases hmayName.kind with hk | rfl
    · exact fun h => nomatch hk.symm.trans h
    · rw [hopen]; exact nofun
  exact .funcRest (hfunction.keyword .kwFunction).reads (mayRead_of_prints hstar hnext) hmayName
    hspells

theorem readsBack_arrowHead
    (ih : (Phrase.items (Context.function isAsync false) .param params).ReadsBack ts) :
    (Phrase.arrowHead isAsync params).ReadsBack ts := by
  intro i j hprints _ _
  obtain ⟨i₁, i₃, hasync, hprints, harrow⟩ := hprints.split₃
  obtain ⟨i₂, hopen, hparams⟩ := hprints.split
  have harrow := harrow.mark .arrow
  have hopen := hopen.mark .lParen
  have hmayRead : ts.reading.MayRead (.keyword .kwAsync) isAsync i i₁ := by
    cases isAsync with
    | true => exact .yes (Prints.keyword .kwAsync hasync).reads
    | false =>
      obtain rfl := prints_nil.mp hasync
      exact .no fun hk => nomatch hopen.kind.symm.trans hk
  exact .arrowParams hmayRead hopen.reads (ih _ _ hparams harrow.flush trivial)
    harrow.flush.breaks harrow.reads

theorem readsBack_classRest {name : Option String} {parent : Option Expr}
    {members : List ClassMember} (hname : ∀ text ∈ name, Worded .identifier text)
    (ih : (Phrase.parent cx parent).ReadsBack ts)
    (ih' : (Phrase.members cx.allowIn members).ReadsBack ts) :
    (Phrase.classRest cx name parent members).ReadsBack ts := by
  intro i j hprints hflush _
  obtain ⟨i₁, i₂, i₃, hclass, hnamePrints, hparent, hbody⟩ := hprints.split₄
  obtain ⟨i₄, i₅, hopen, hmembers, hclose⟩ := hbody.split₃
  have hopen := hopen.mark .lBrace
  have hparent' := ih _ _ hparent hopen.flush hopen.kind
  have hnext : ts.kindAt i₂ ≠ .identifier := by
    cases hparent' with
    | noParent => rw [hopen.kind]; exact nofun
    | parent hextends => exact fun h => nomatch hextends.1.symm.trans h
  exact .classRest (hclass.keyword .kwClass).reads (mayName_of_prints hnamePrints hname hnext)
    hparent' hopen.reads (ih' _ _ (hmembers.append hclose) hflush trivial)

theorem staticAt_of_prints {start : MethodStart} {i₁ i₂ : Nat}
    (hprints : ts.Prints (putIf isStatic "static ") i i₁)
    (hstart : ts.reading.MethodStartAt start i₁ i₂) (hkey : Spells ts.reading (.key cx key) i₂ j)
    (hfollows : followsStaticName (ts.kindAt j) = true) : ts.reading.StaticAt isStatic i i₁ := by
  cases isStatic with
  | true =>
    have hstatic := (Prints.compound hprints ["static"] (by decide)).keyword .kwStatic
    refine .yes hstatic.reads ?_
    rcases hstart.opens with rfl | hk | hk
    · exact (startsKey_ends hkey.opens).2.1
    · exact (startsKey_ends hk).2.1
    · rw [hk]; rfl
  | false =>
    obtain rfl := prints_nil.mp hprints
    exact hkey.staticAt hstart hfollows

theorem readsBack_method {kind : MethodKind}
    (hkind : kind = .method ∨ isAsync = false ∧ isGenerator = false)
    (ih : (Phrase.key cx key).ReadsBack ts)
    (ih' : (Phrase.callable (Context.function isAsync isGenerator) params body).ReadsBack ts) :
    (Phrase.member cx (.method sp kind isStatic key
      ⟨sp', none, isAsync, isGenerator, params, body⟩)).ReadsBack ts := by
  intro i j hprints hflush _
  change ts.Prints (_ ++ kind.pieces ++ Func.methodPieces key.pieces _) i j at hprints
  rw [pieces_method _ _ _ _ _ _ (Context.function isAsync isGenerator), List.append_assoc,
    ← List.append_assoc kind.pieces, ← List.append_assoc kind.pieces] at hprints
  obtain ⟨i₁, hstatic, hprints⟩ := hprints.split
  obtain ⟨i₂, i₃, hwords, hkey, hcallable⟩ := hprints.split₃
  have hcallable' := ih' _ _ hcallable hflush trivial
  have hopen : ts.kindAt i₃ = .punct .lParen := of_decide_eq_true hcallable'.opens
  have hkey' := ih _ _ hkey (hcallable.flush hflush) trivial
  have hstart := methodStartAt_of_prints hkind hwords hkey' (by rw [hopen]; rfl)
  exact .method (staticAt_of_prints hstatic hstart hkey' (by rw [hopen]; rfl)) hstart hkey'
    hcallable' trivial trivial

theorem readsBack_field (ih : (Phrase.key cx key).ReadsBack ts)
    (ih' : (Phrase.value cx v).ReadsBack ts) :
    (Phrase.member cx (.field sp isStatic key v)).ReadsBack ts := by
  intro i j hprints _ _
  obtain ⟨i₁, i₃, i₄, hstatic, hkey, hvalue, hclose⟩ := hprints.split₄
  have hclose := Prints.mark .semicolon hclose
  have hvalue' := ih' _ _ hvalue hclose.flush (hclose.kind ▸ rfl)
  have hnext : followsName (ts.kindAt i₃) = true ∧ followsStaticName (ts.kindAt i₃) = true ∧
      ts.kindAt i₃ ≠ .punct .lParen := by
    rcases hvalue'.value_kind with hk | rfl
    · rw [hk]; exact ⟨rfl, rfl, nofun⟩
    · rw [hclose.kind]; exact ⟨rfl, rfl, nofun⟩
  have hkey' := ih _ _ hkey (hvalue.flush hclose.flush) trivial
  have hstart := hkey'.methodStartAt hnext.1
  exact .field (staticAt_of_prints hstatic hstart hkey' hnext.2.1) hstart hkey' hnext.2.2 hvalue'
    (.mark hclose.reads) trivial

end
end Grammar
end ScriptBundler
