import ScriptBundler.Proofs.Grouping

/-!
# Finding what is spelled

The converse of soundness starts here: a parser that is put in front of tokens
that spell something answers with it.  What it answers is the tree up to spans,
and it stops where the tokens do.

Parsers also run over tokens that spell something else, when an alternative is
tried that turns out to be wrong.  So most statements are about any set of
failures `E`: without failures they say that the tree is found, with all
unexpected tokens allowed they say that nothing else is.
-/

namespace ScriptBundler
namespace Grammar

open Grammar.Parser

variable {cx : Context} {k : Token.Kind} {raw : String}

/-!
# Answers

A parser finds a value if it answers with it, up to spans, where its tokens end.
-/

/-- The answer is `x` up to what `bare` takes away, and `j` is reached. -/
def Finds {α : Type} (bare : α → α) (x : α) (j : Nat) (a : α) (k : Nat) : Prop :=
  k = j ∧ bare a = bare x

theorem Runs.found {α β : Type} {ts : Reading} {E : Failure → Prop} {i j : Nat} {p : Parser α}
    {f : α → Parser β} {P : α → Prop} {R : β → Nat → Prop}
    (h : Runs ts E p i fun a k => k = j ∧ P a) (hf : ∀ a, i ≤ j → P a → Runs ts E (f a) j R) :
    Runs ts E (p >>= f) i R :=
  h.next fun a _ hle ha => ha.1 ▸ hf a (ha.1 ▸ hle) ha.2

/-- A context under which tokens that were spelled under another are read: the
same one, or any other as long as unexpected tokens are allowed. -/
def Fits (E : Failure → Prop) (cx cx' : Context) : Prop :=
  cx' = cx ∨ (∀ t, E (.unexpected t)) ∧ cx'.noIn = cx.noIn

namespace Fits

variable {E : Failure → Prop} {cx' : Context}

theorem refl : Fits E cx cx :=
  .inl rfl

theorem excused (h : cx'.noIn = cx.noIn) : Fits Excused cx cx' :=
  .inr ⟨fun _ => trivial, h⟩

theorem noIn_eq (h : Fits E cx cx') : cx'.noIn = cx.noIn := by
  rcases h with rfl | h
  · rfl
  · exact h.2

theorem allowIn (h : Fits E cx cx') : Fits E cx.allowIn cx'.allowIn := by
  rcases h with rfl | h
  · exact .inl rfl
  · exact .inr ⟨h.1, rfl⟩

end Fits

theorem Context.allowIn_of_noIn (h : cx.noIn = false) : cx.allowIn = cx := by
  obtain ⟨inAsync, inGenerator, noIn⟩ := cx
  cases h
  rfl

/-!
# Tokens behind an expression

The token behind an expression ends it, and tells that no arrow function starts
there.
-/

section
variable {ts : Stream} {noIn : Bool} {j : Nat} {e : Expr}

/-- The next token does not make what was read so far the start of an arrow
function. -/
structure Quiet (ts : Stream) (j : Nat) : Prop where
  arrow : ts.kindAt j = .punct .arrow → ts.breaksAt j = true
  word : ts.kindAt j = .identifier → ts.breaksAt j = true

structure Ends (ts : Stream) (noIn : Bool) (j : Nat) (e : Expr) : Prop extends Quiet ts j where
  halts : Halts ts noIn j e

theorem Ends.stops (h : Ends ts noIn j e) : Stops ts noIn j e :=
  h.halts.1

structure SequenceEnds (ts : Stream) (noIn : Bool) (j : Nat) (e : Expr) : Prop
    extends Quiet ts j where
  stops : SequenceStops ts (Halts ts) noIn j e

theorem operandStops_of_kind (htail : startsTail (ts.kindAt j) = false)
    (hupdate : UpdateOp.ofKind? (ts.kindAt j) = none) : OperandStops ts j e := by
  fun_induction OperandStops ts j e with
  | case1 _ _ _ ih => exact ih
  | case2 _ _ ih => exact ih
  | case3 _ _ _ ih => exact ih
  | case4 => exact trivial
  | case5 _ _ _ _ ih => exact ih
  | case6 => exact ⟨htail, .inl hupdate⟩

theorem stops_of_kind (hgoes : goesOn noIn (ts.kindAt j) = false) : Stops ts noIn j e := by
  unfold goesOn at hgoes
  simp only [Bool.or_eq_false_iff, Option.isSome_eq_false_iff, Option.isNone_iff_eq_none,
    decide_eq_false_iff_not] at hgoes
  obtain ⟨⟨⟨⟨htail, hupdate⟩, hinfix⟩, hquestion⟩, hassign⟩ := hgoes
  fun_induction Stops ts noIn j e with
  | case1 => exact trivial
  | case2 => exact trivial
  | case3 _ _ _ _ ih | case4 _ _ _ _ ih | case5 _ _ _ ih | case6 _ _ _ ih => exact ih
  | case7 _ _ _ _ ih => exact ⟨ih, hassign⟩
  | case8 => exact ⟨operandStops_of_kind htail hupdate, hinfix, hquestion, hassign⟩

theorem goesOn_of_endsYield (h : endsYield k = true) : goesOn noIn k = false := by
  unfold endsYield at h
  split at h
  all_goals first | (cases noIn <;> rfl) | cases h

section
variable (h : endsYield (ts.kindAt j) = true)
include h

theorem Quiet.of_endsYield : Quiet ts j := by
  refine ⟨fun hk => ?_, fun hk => ?_⟩
  · rw [hk] at h
    cases h
  · rw [hk] at h
    cases h

theorem halts_of_endsYield : Halts ts noIn j e := by
  refine ⟨stops_of_kind (goesOn_of_endsYield h), fun _ _ harrow => ?_⟩
  rw [harrow.1] at h
  cases h

theorem Ends.of_endsYield : Ends ts noIn j e :=
  ⟨.of_endsYield h, halts_of_endsYield h⟩

theorem SequenceEnds.of_endsYield (hcomma : ts.kindAt j ≠ .punct .comma) :
    SequenceEnds ts noIn j e := by
  refine ⟨.of_endsYield h, ?_⟩
  have hstops : ∀ e, Halts ts noIn j e := fun _ => halts_of_endsYield h
  unfold SequenceStops
  split
  · exact ⟨hcomma, fun e _ => hstops e⟩
  · exact ⟨hcomma, hstops _⟩

end

theorem SequenceEnds.of_reads {rd : Reading} {mark : Punctuator} {i : Nat}
    (h : rd.Reads (.punct mark) j i)
    (hmark : mark = .rParen ∨ mark = .rBracket ∨ mark = .rBrace ∨ mark = .colon ∨
      mark = .semicolon) : SequenceEnds rd noIn j e := by
  rcases hmark with rfl | rfl | rfl | rfl | rfl <;>
    exact .of_endsYield (by rw [h.1]; rfl) (by rw [h.1]; exact nofun)

theorem Quiet.of_closes {rd : Reading} {i : Nat} (h : rd.Closes i j) : Quiet rd i := by
  cases h with
  | mark hread => exact .of_endsYield (by rw [hread.1]; rfl)
  | brace hk | input hk => exact .of_endsYield (by rw [hk]; rfl)
  | line _ hbreak => exact ⟨fun _ => hbreak, fun _ => hbreak⟩

end

/-! # Patterns in front of expressions

A pattern is tried where an expression stands.  It can end where the expression
does, in front of a value assigned to it, or at a token that no pattern is
followed by. -/

/-- Where a pattern can end that is read from tokens that spell an expression up
to `j`. -/
inductive Covers (rd : Reading) (cx : Context) (m j : Nat) : Prop
  | whole : m = j → Covers rd cx m j
  | valued {i₁ value} : rd.Reads (.punct .eq) m i₁ → Spells rd (.expr cx value) i₁ j →
      Level.assignment ≤ value.level → Covers rd cx m j
  | stuck : endsYield (rd.kindAt m) = false → rd.kindAt m ≠ .punct .eq →
      (rd.kindAt m = .keyword .kwIn → cx.noIn = false) →
      (rd.kindAt m = .identifier → rd.kindAt (rd.past m) = .punct .arrow) → Covers rd cx m j

section
variable {rd : Reading} {x e : Expr} {i m j : Nat}

theorem Extends.covers (h : Extends rd cx x m e j) : Covers rd cx m j := by
  rcases h.goesOn with ⟨_, hm⟩ | hgoes
  · exact .whole hm
  · by_cases hk : rd.kindAt m = .punct .eq
    · rcases h.assigned hk with ⟨_, hm⟩ | ⟨_, _, i₁, value, hread, hvalue, hlevel⟩
      · exact .whole hm
      · exact .valued hread hvalue hlevel
    · refine .stuck ?_ hk (fun hin => ?_) fun hword => ?_
      · refine Bool.eq_false_iff.mpr fun hends => ?_
        rw [goesOn_of_endsYield hends] at hgoes
        cases hgoes
      · rw [hin] at hgoes
        cases hnoIn : cx.noIn with
        | false => rfl
        | true =>
          rw [hnoIn] at hgoes
          cases hgoes
      · rw [hword] at hgoes
        cases hnoIn : cx.noIn <;> rw [hnoIn] at hgoes <;> cases hgoes

theorem Covers.of_kind (hk : rd.kindAt m = k) (hends : endsYield k = false) (heq : k ≠ .punct .eq)
    (hin : k ≠ .keyword .kwIn) (hword : k ≠ .identifier) : Covers rd cx m j := by
  subst hk
  exact .stuck hends heq (fun h => absurd h hin) fun h => absurd h hword

theorem Derives.covers_arrowHead {isAsync : Bool} {params : List Param}
    (h : Spells rd (.arrowHead isAsync params) i m) (hname : rd.kindAt i ≠ .punct .lParen) :
    Covers rd cx (rd.past i) j := by
  cases h with
  | @arrowName _ _ _ _ _ i₁ i₂ _ hasync hword _ harrow =>
    cases hasync with
    | yes hread =>
      have hfirst : rd.past i = i₁ := hread.2.1
      have hsecond : rd.past i₁ = i₂ := hword.1.2.1
      rw [hfirst]
      refine .stuck ?_ ?_ (fun h => absurd (hword.1.1.symm.trans h) nofun) fun _ => ?_
      · rw [hword.1.1]
        rfl
      · rw [hword.1.1]
        exact nofun
      · rw [hsecond]
        exact harrow.1
    | no =>
      have hfirst : rd.past i = i₂ := hword.1.2.1
      rw [hfirst]
      exact .of_kind harrow.1 rfl nofun nofun nofun
  | @arrowParams _ _ _ i₁ _ _ _ hasync hopen =>
    cases hasync with
    | yes hread =>
      have hfirst : rd.past i = i₁ := hread.2.1
      rw [hfirst]
      exact .of_kind hopen.1 rfl nofun nofun nofun
    | no => exact absurd hopen.1 hname

theorem Derives.covers_name [rd.Ended] (h : Spells rd (.expr cx e) i j)
    (hlevel : Level.assignment ≤ e.level) (hname : namesVariable (rd.kindAt i) = true) :
    Covers rd cx (rd.past i) j := by
  have hk : rd.kindAt i = .identifier ∨ rd.kindAt i = .keyword .kwAsync := by
    unfold namesVariable at hname
    rwa [Bool.or_eq_true, decide_eq_true_eq, decide_eq_true_eq] at hname
  have hne : ∀ mark, rd.kindAt i ≠ .punct mark := by
    rintro mark hmark
    rcases hk with hk | hk <;> cases hk.symm.trans hmark
  have hstart : startsOperand (rd.kindAt i) = true := by
    rcases hk with hk | hk <;> rw [hk] <;> rfl
  rcases h.lead_operand hlevel hstart with ⟨harrow, _⟩ | ⟨hmark, _⟩ | ⟨x, m, hbase, hext⟩
  · cases h with
    | arrow hhead | arrowBlock hhead => exact hhead.covers_arrowHead (hne _)
    | _ => cases harrow
  · rcases hmark with hmark | hmark <;> exact absurd hmark (hne _)
  · cases hbase with
    | word _ htake => exact htake.1 ▸ hext.covers
    | asyncFunction _ hfunction => exact .of_kind hfunction rfl nofun nofun nofun
    | array hread | object hread | paren hread => exact absurd hread.1 (hne _)
    | other hno => rcases hk with hk | hk <;> rw [hk] at hno <;> cases hno

end

section
variable {ts : Reading} [ts.Ended] {E : Failure → Prop} {i j n : Nat}

theorem stringBody_finds {quote : Token} (h : ts.StringRest quote.text i j)
    (hn : ts.tokens.size ≤ i + n) : Runs ts E (stringBody quote n) i fun _ k => k = j := by
  induction n generalizing i with
  | zero => exact .beyond hn
  | succ n ih =>
    unfold stringBody
    refine .rawPeek ?_
    cases h with
    | close hk htext =>
      simp only [hk]
      exact .rawAdvance (readable hk) (.ite (fun _ => .pure rfl) fun hno => absurd htext hno)
    | quoted hk htext hrest =>
      simp only [hk]
      exact .rawAdvance (readable hk)
        (.ite (fun hyes => absurd hyes htext) fun _ => ih hrest (by omega))
    | escape hk hend hrest =>
      simp only [hk]
      exact .rawAdvance (readable hk) (.rawPeek (.ite (fun h => absurd h hend) fun _ =>
        .rawAdvance hend (ih hrest (by omega))))
    | plain hend hline hescape hquote hrest =>
      have hstep : Runs ts E (do
          let _ ← rawAdvance
          stringBody quote n) i fun _ k => k = j :=
        .rawAdvance hend (ih hrest (by omega))
      split
      all_goals first | exact hstep | exact absurd (by assumption) (by assumption)

theorem regexBody_finds {slash : Token} {inClass : Bool} (h : ts.RegexRest inClass i j)
    (hn : ts.tokens.size ≤ i + n) : Runs ts E (regexBody slash inClass n) i fun _ k => k = j := by
  induction n generalizing i inClass with
  | zero => exact .beyond hn
  | succ n ih =>
    unfold regexBody
    refine .rawPeek ?_
    have hstep : ∀ {inClass'}, (ts.token i).kind ≠ .endOfInput → ts.RegexRest inClass' (i + 1) j →
        Runs ts E (do
          let _ ← rawAdvance
          regexBody slash inClass' n) i fun _ k => k = j :=
      fun hend hrest => .rawAdvance hend (ih hrest (by omega))
    cases h with
    | close hk =>
      simp only [hk]
      exact .no (.pure rfl)
    | escape hk hend hline hrest =>
      simp only [hk]
      exact .rawAdvance (readable hk) (.rawPeek
        (.ite (fun h => absurd h (not_or.mpr ⟨hend, hline⟩)) fun _ =>
          .rawAdvance hend (ih hrest (by omega))))
    | enter hk hrest | leave hk hrest =>
      simp only [hk]
      exact hstep (readable hk) hrest
    | slash hk hrest =>
      simp only [hk]
      exact hstep (readable hk) hrest
    | plain hend hline hescape hopen hclose hslash hrest =>
      split
      all_goals first | exact hstep hend hrest | exact absurd (by assumption) (by assumption)

end

section
variable {rd : Reading} [rd.Ended] {E : Failure → Prop} {i j n : Nat}

theorem stringLiteral_finds (h : rd.StringAt raw i j) :
    Runs rd E stringLiteral i (Finds id raw j) := by
  obtain ⟨hk, hrest, hraw, _⟩ := h
  refine .nextIndex (.advance (readable hk) fun hlt => (stringBody_finds hrest (by omega)).next ?_)
  rintro _ _ _ rfl
  exact .tail (.textFrom (.pure ⟨rfl, hraw⟩))

theorem expectString_finds (h : rd.StringAt raw i j) : Runs rd E expectString i (Finds id raw j) :=
  .sees h.1 (.yes (stringLiteral_finds h))

theorem regexLiteral_finds {pattern flags : String} (h : rd.RegexAt pattern flags i j) :
    Runs rd E regexLiteral i (Finds id (pattern, flags) j) := by
  have hopen : ∃ k mark, rd.kindAt i = .punct mark ∧ rd.RegexRest false (rd.past i) k ∧
      rd.FlagsAt flags (k + 1) j ∧
      (if rd.kindAt i = .punct .slashEq then "=" ++ rd.textBetween (rd.past i) k
        else rd.textBetween (rd.past i) k) = pattern := by
    cases h with
    | slash hk hrest hflags =>
      exact ⟨_, _, hk, hrest, hflags, if_neg (by rw [hk]; decide)⟩
    | slashEq hk hrest hflags => exact ⟨_, _, hk, hrest, hflags, if_pos hk⟩
  obtain ⟨k, mark, hk, hrest, hflags, hpattern⟩ := hopen
  unfold regexLiteral
  refine .advance (readable hk) fun _ => .rawIndex ((regexBody_finds hrest (by omega)).next ?_)
  rintro _ _ _ rfl
  refine .textFrom (.rawAdvance (readable hrest.closed) (.rawPeek ?_))
  cases hflags with
  | some hword =>
    refine .ite (fun _ => ?_) fun hno => absurd hword hno
    exact .rawAdvance (readable hword) (.pure ⟨rfl, congrArg (·, _) hpattern⟩)
  | none hword =>
    exact .ite (fun hyes => absurd hyes hword) fun _ => .pure ⟨rfl, congrArg (·, _) hpattern⟩

theorem templateBody_finds {sub : Parser Unit} {mark : Token} (first : Nat)
    (hsub : ∀ {i₁ i₂}, Spells rd (.substitution cx) i₁ i₂ → first ≤ i₁ →
      Runs rd E sub i₁ fun _ k => k = i₂)
    (h : Spells rd (.templateRest cx) i j) (hfirst : first ≤ i) (hn : rd.tokens.size ≤ i + n) :
    Runs rd E (templateBody sub mark n) i fun _ k => k = j := by
  induction n generalizing i with
  | zero => exact .beyond hn
  | succ n ih =>
    unfold templateBody
    refine .rawPeek ?_
    have hthen : ∀ {i₁ i₂}, Spells rd (.substitution cx) i₁ i₂ → Spells rd (.templateRest cx) i₂ j →
        i < i₁ → Runs rd E (do
          sub
          templateBody sub mark n) i₁ fun _ k => k = j := by
      intro i₁ i₂ hsubst hrest hlt
      have hle := hsubst.le
      refine (hsub hsubst (by omega)).next ?_
      rintro _ _ _ rfl
      exact ih hrest (by omega) (by omega)
    cases h with
    | templateClose hk =>
      simp only [hk]
      exact .rawAdvance (readable hk) (.pure rfl)
    | templateEscape hk hend hplain hrest =>
      simp only [hk]
      have hagain := ih hrest (by omega) (by omega)
      refine .rawAdvance (readable hk) (.rawAdvance hend
        (.ite (fun h => absurd h hend) fun _ => .ite (fun hword => ?_) fun _ => hagain))
      exact .rawPeek (.ite (fun hbrace => absurd ⟨hword.1, hword.2.1, hword.2.2, hbrace⟩ hplain)
        fun _ => hagain)
    | templateEscapeThen hk hword hlength hdollar hbrace hsubst hrest =>
      simp only [hk]
      refine .rawAdvance (readable hk) (.rawAdvance (readable hword)
        (.ite (fun h => absurd h (readable hword)) fun _ => .ite (fun _ => ?_)
          fun hno => absurd ⟨hword, hlength, hdollar⟩ hno))
      exact .rawPeek (.ite (fun _ => .rawAdvance (readable hbrace) (hthen hsubst hrest (by omega)))
        fun hno => absurd hbrace hno)
    | templateThen hk hdollar hbrace hsubst hrest =>
      simp only [hk]
      refine .rawPeekSecond (.rawAdvance (readable hk)
        (.ite (fun _ => ?_) fun hno => absurd ⟨hdollar, hbrace⟩ hno))
      exact .rawAdvance (readable hbrace) (hthen hsubst hrest (by omega))
    | templatePlain hend hescape hquote hplain hrest =>
      have hagain := ih hrest (by omega) (by omega)
      split
      · exact absurd (by assumption) hend
      · exact absurd (by assumption) hescape
      · exact absurd (by assumption) hquote
      · rename_i hk
        exact .rawPeekSecond (.rawAdvance hend
          (.ite (fun h => absurd ⟨hk, h⟩ hplain) fun _ => hagain))
      · exact .rawAdvance hend hagain

theorem templateLiteral_finds {sub : Parser Unit}
    (hsub : ∀ {i₁ i₂}, Spells rd (.substitution cx) i₁ i₂ → i < i₁ →
      Runs rd E sub i₁ fun _ k => k = i₂)
    (h : Spells rd (.template cx raw) i j) :
    Runs rd E (templateLiteral sub) i (Finds id raw j) := by
  cases h with
  | template hk hrest hraw =>
    refine .nextIndex (.advance (readable hk) fun hlt =>
      (templateBody_finds (i + 1) hsub hrest hlt (by omega)).next ?_)
    rintro _ _ _ rfl
    exact .tail (.textFrom (.pure ⟨rfl, hraw⟩))

end

theorem startsItem_ne {c : ItemClass} (h : startsItem c k = true) :
    k ≠ .punct .comma ∧ k ≠ .punct c.close := by
  refine ⟨fun hk => ?_, fun hk => ?_⟩
  · rw [hk] at h
    cases c <;> cases h
  · rw [hk] at h
    cases c <;> cases h

theorem Runs.expectMark_stuck {α : Type} {ts : Reading} {E : Failure → Prop} {i : Nat}
    {mark : Punctuator} {f : Unit → Parser α} {Q : α → Nat → Prop} (hk : ts.kindAt i ≠ .punct mark)
    (hE : ∀ t, E (.unexpected t)) : Runs ts E (Parser.expectMark mark >>= f) i Q :=
  .bind (.bind (.misses hk (.no fun _ _ => hE _)))

section
variable {rd : Reading} [rd.Ended] {E : Failure → Prop} {i j : Nat} {c : ItemClass}
  {xs : List c.Item} {α γ : Type} {item : Parser α} {hole : Option α}

def Continues (f : α → γ) (g : c.Item → γ) (j : Nat) (done : List α) (xs : List c.Item)
    (ys : List α) (k : Nat) : Prop :=
  k = j ∧ ∃ zs, ys = done.reverse ++ zs ∧ zs.map f = xs.map g

/-- Items with commas between them, each of which is read as something or gets
stuck where no list goes on. -/
theorem Runs.commaList_finds (f : α → γ) (g : c.Item → γ) (hitems : Spells rd (.items cx c xs) i j)
    (hhole : hole.map f = c.hole.map g)
    (hitem : ∀ {x i₁ i₂}, Spells rd (.item cx c x) i₁ i₂ → endsYield (rd.kindAt i₂) = true →
      i ≤ i₁ → Runs rd E item i₁ fun y k => k = i₂ ∧ f y = g x ∨ (∀ t, E (.unexpected t)) ∧
        rd.kindAt k ≠ .punct .comma ∧ rd.kindAt k ≠ .punct c.close) :
    Runs rd E (Parser.commaList c.close hole item) i fun ys k => k = j ∧ ys.map f = xs.map g := by
  have hcomma : Punctuator.comma ≠ c.close := by cases c <;> decide
  have hclose : ∀ {k}, k = .punct .comma ∨ k = .punct c.close → endsYield k = true := by
    rintro k (rfl | rfl)
    · rfl
    · cases c <;> rfl
  have hloop : ∀ n done xs i₁, Spells rd (.items cx c xs) i₁ j → i ≤ i₁ → rd.tokens.size ≤ i₁ + n →
      Runs rd E (Parser.commaListLoop c.close hole item done n) i₁ (Continues f g j done xs) := by
    intro n
    induction n with
    | zero => exact fun _ _ _ _ _ => .beyond
    | succ n ih =>
      intro done xs i₁ hxs hle hn
      have hagain : ∀ {y x xs i₂}, f y = g x → Spells rd (.items cx c xs) i₂ j → i₁ < i₂ →
          Runs rd E (Parser.commaListLoop c.close hole item (y :: done) n) i₂
            (Continues f g j done (x :: xs)) := by
        intro y x xs i₂ hy hxs hlt
        refine (ih (y :: done) xs i₂ hxs (by omega) (by omega)).mono ?_
        rintro ys k _ ⟨hpos, zs, rfl, hzs⟩
        refine ⟨hpos, y :: zs, by simp, ?_⟩
        rw [List.map_cons, List.map_cons, hy, hzs]
      have hone : ∀ {x} {xs : List c.Item} {i₂}, Spells rd (.item cx c x) i₁ i₂ →
          rd.kindAt i₂ = .punct .comma ∨ rd.kindAt i₂ = .punct c.close →
          (∀ {y}, f y = g x → Runs rd E (do
              if ← Parser.eatMark .comma then
                Parser.commaListLoop c.close hole item (y :: done) n
              else
                Parser.expectMark c.close
                return (y :: done).reverse) i₂ (Continues f g j done xs)) →
          Runs rd E (Parser.commaListLoop c.close hole item done (n + 1)) i₁
            (Continues f g j done xs) := by
        intro x xs i₂ hx hnext hafter
        obtain ⟨hnotComma, hnotClose⟩ := startsItem_ne hx.opens
        have hmain : Runs rd E (do
            let y ← item
            if ← Parser.eatMark .comma then
              Parser.commaListLoop c.close hole item (y :: done) n
            else
              Parser.expectMark c.close
              return (y :: done).reverse) i₁ (Continues f g j done xs) := by
          refine (hitem hx (hclose hnext) hle).next ?_
          rintro y i₂ _ (⟨rfl, hy⟩ | ⟨hE, hstuck, hstuck'⟩)
          · exact hafter hy
          · exact .leaves hstuck (.no (.expectMark_stuck hstuck' hE))
        refine .leaves hnotClose (.no ?_)
        cases hole with
        | none => exact hmain
        | some y => exact .leaves hnotComma (.no hmain)
      cases hxs with
      | noItems hread => exact .eats hread fun _ => .yes (.pure ⟨rfl, [], by simp, rfl⟩)
      | hole hx hread hxs =>
        have hnot : rd.kindAt i₁ ≠ .punct c.close :=
          hread.1 ▸ fun h => hcomma (Token.Kind.punct.inj h)
        refine .leaves hnot (.no ?_)
        rw [hx] at hhole
        cases hole with
        | none => cases hhole
        | some y => exact .eats hread fun _ => .yes (hagain (Option.some.inj hhole) hxs hread.lt)
      | moreItems hx hread hxs =>
        have hlt := hread.lt
        have hle := hx.le
        exact hone hx (.inl hread.1) fun hy => .eats hread fun _ => .yes (hagain hy hxs (by omega))
      | @lastItem _ _ x _ i₂ _ hx hread =>
        have hnot : rd.kindAt i₂ ≠ .punct .comma :=
          hread.1 ▸ fun h => hcomma (Token.Kind.punct.inj h).symm
        exact hone hx (.inr hread.1) fun {y} hy => .leaves hnot (.no (.readMark hread fun _ =>
          .pure ⟨rfl, [y], by simp, congrArg (fun z => [z]) hy⟩))
  refine (hloop (rd.tokens.size + 1) [] xs i hitems (Nat.le_refl i) (by omega)).mono ?_
  rintro ys k _ ⟨hpos, zs, rfl, hzs⟩
  exact ⟨hpos, hzs⟩

theorem Runs.list_finds {item : Parser c.Item} {bare : c.Item → c.Item}
    {listBare : List c.Item → List c.Item} (hitems : Spells rd (.items cx c xs) i j)
    (hlist : ∀ xs, listBare xs = xs.map bare)
    (hitem : ∀ {x i₁ i₂}, Spells rd (.item cx c x) i₁ i₂ → endsYield (rd.kindAt i₂) = true →
      i ≤ i₁ → Runs rd E item i₁ (Finds bare x i₂)) :
    Runs rd E (Parser.commaList c.close c.hole item) i (Finds listBare xs j) :=
  .mono (.commaList_finds bare bare hitems rfl fun hx hnext hle =>
    (hitem hx hnext hle).mono fun _ _ _ => .inl) fun ys _ _ h =>
      ⟨h.1, by rw [hlist, hlist, h.2]⟩

end

section
variable {α β γ : Type} {ts : Reading} {E : Failure → Prop} {i : Nat}

/-- What one round does when `rest` is left to be read: it reads the first of
what is left, or ends when nothing is. -/
def Advances (f : α → γ) (g : β → γ) (I : List β → Nat → Prop) (F : Nat → Prop) (rest : List β)
    (i : Nat) : Option α → Nat → Prop
  | none, j => rest = [] ∧ F j
  | some a, j => i < j ∧ ∃ x more, rest = x :: more ∧ f a = g x ∧ I more j

theorem Runs.collect_finds {step : Parser (Option α)} {xs : List β} (f : α → γ) (g : β → γ)
    (I : List β → Nat → Prop) (F : Nat → Prop) (hinit : I xs i)
    (hstep : ∀ rest i', i ≤ i' → I rest i' → Runs ts E step i' (Advances f g I F rest i')) :
    Runs ts E (Parser.collect step) i fun ys j => F j ∧ ys.map f = xs.map g := by
  refine .collect (fun done j => ∃ rest, done.reverse.map f ++ rest.map g = xs.map g ∧ I rest j)
    ⟨xs, rfl, hinit⟩ ?_
  rintro done i' hle ⟨rest, hdone, hrest⟩
  refine (hstep rest i' hle hrest).mono fun a j _ h => ?_
  cases a with
  | none =>
    obtain ⟨rfl, hF⟩ := h
    exact ⟨hF, by simpa using hdone⟩
  | some a =>
    obtain ⟨hlt, x, more, rfl, ha, hmore⟩ := h
    refine ⟨hlt, more, ?_, hmore⟩
    rw [← hdone, List.reverse_cons, List.map_append, List.map_cons, List.map_cons, List.map_nil,
      List.append_assoc, List.singleton_append, ha]

end

end Grammar
end ScriptBundler
