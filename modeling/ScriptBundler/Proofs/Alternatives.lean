import ScriptBundler.Proofs.OperatorCompleteness

/-!
# Alternatives that are tried first

Arrow functions and assignments to patterns look like other expressions at
first and are tried before those.  Where another expression stands, the attempt
follows its tokens as a pattern would, up to the place where no arrow and no
equals sign comes.
-/

namespace ScriptBundler
namespace Grammar

open Grammar.Parser

variable {m i₁ : Nat} {x : Expr}

section
variable {rd : Reading} {i j d : Nat} {r : Rules} {cx cx' : Context} {e : Expr}

/-!
# Patterns read from literals

An item of a literal may be read as an item of a pattern.  Where that one ends
earlier, no list goes on.
-/

/-- Where an item of a pattern ends that is read from an item of a literal. -/
def PassesTo (rd : Reading) (j m : Nat) : Prop :=
  m = j ∨ endsYield (rd.kindAt m) = false

theorem Covers.passes (h : Covers rd cx m j) : PassesTo rd j m := by
  cases h with
  | whole hm => exact .inl hm
  | valued hread =>
    refine .inr ?_
    rw [hread.1]
    rfl
  | stuck hends => exact .inr hends

theorem PassesTo.item {c : ItemClass} (h : PassesTo rd j m) :
    m = j ∧ () = () ∨ (∀ t, Excused (.unexpected t)) ∧ rd.kindAt m ≠ .punct .comma ∧
      rd.kindAt m ≠ .punct c.close := by
  rcases h with h | h
  · exact .inl ⟨h, rfl⟩
  · refine .inr ⟨fun _ => trivial, fun hk => ?_, fun hk => ?_⟩
    · rw [hk] at h
      cases h
    · rw [hk] at h
      cases c <;> cases h

section
variable [rd.Ended] (hr : Complete rd d r)
include hr

theorem boundValue_passes {α : Type} {f : Binding → Option Expr → Parser α} {Q : α → Nat → Prop}
    (h : Spells rd (.expr cx e) i j) (hlevel : Level.assignment ≤ e.level)
    (hnext : endsYield (rd.kindAt j) = true) (hnoIn : cx.noIn = false)
    (hd : rd.tokens.size ≤ i + d) (hf : ∀ b v k, PassesTo rd j k → Meets rd (f b v) k Q) :
    Meets rd (do
      let b ← r.pattern cx'
      let v ← defaultValue r cx'
      f b v) i Q := by
  refine (hr.cover rfl h hlevel hd).next ?_
  rintro b m _ ⟨hlt, hcovers⟩
  refine .bind ?_
  cases hcovers with
  | whole hm =>
    have hk : rd.kindAt m ≠ .punct .eq := by
      rintro hk
      rw [← hm, hk] at hnext
      cases hnext
    exact .leaves hk (.no (.pure (hf b none m (.inl hm))))
  | valued hread hvalue hvalueLevel =>
    exact .eats hread fun _ => .yes (.found (hr.assignment rfl hvalue hvalueLevel
      (.of_endsYield hnext) (.excused hnoIn.symm) (by omega)) fun v _ _ =>
        .pure (hf b (some v) j (.inl rfl)))
  | stuck hends heq => exact .leaves heq (.no (.pure (hf b none m (.inr hends))))

theorem arrayElement_passes (h : Spells rd (.item cx .arg e) i j)
    (hnext : endsYield (rd.kindAt j) = true) (hnoIn : cx.noIn = false)
    (hd : rd.tokens.size ≤ i + d) :
    Meets rd (arrayElement r cx') i fun _ => PassesTo rd j := by
  cases h with
  | spreadArg hread he hlevel =>
    exact .eats hread fun _ => .yes ((hr.cover rfl he hlevel (by omega)).next fun _ _ _ h =>
      .pure h.2.passes)
  | plainArg he hlevel =>
    exact .leaves (startsExpr_ne_spread he.opens) (.no (boundValue_passes hr he hlevel hnext hnoIn
      hd fun _ _ _ h => .pure h))

theorem param_passes (h : Spells rd (.item cx .arg e) i j)
    (hnext : endsYield (rd.kindAt j) = true) (hnoIn : cx.noIn = false)
    (hd : rd.tokens.size ≤ i + d) : Meets rd (param r cx') i fun _ => PassesTo rd j := by
  refine .here ?_
  cases h with
  | spreadArg hread he hlevel =>
    exact .eats hread fun _ => .yes ((hr.cover rfl he hlevel (by omega)).next fun _ _ _ h =>
      .spanned fun _ => .pure h.2.passes)
  | plainArg he hlevel =>
    exact .leaves (startsExpr_ne_spread he.opens) (.no (boundValue_passes hr he hlevel hnext hnoIn
      hd fun _ _ _ h => .spanned fun _ => .pure h))

theorem objectElement_name {key : PropertyKey} (hkey : Spells rd (.key cx key) i j)
    (hcolon : rd.kindAt j ≠ .punct .colon) (heq : rd.kindAt j ≠ .punct .eq)
    (hnoIn : cx.noIn = false) (hd : rd.tokens.size ≤ i + d) :
    Meets rd (objectElement r cx') i fun _ k => k = j := by
  refine .leaves (startsKey_ne_spread hkey.opens) (.no (.isAt (fun _ => ?_) fun _ => ?_))
  all_goals
    refine .here (.found (propertyKey_finds hr hkey (.excused hnoIn.symm) (by omega))
      fun key' _ _ => .leaves hcolon (.no ?_))
    cases key' with
    | ident name =>
      exact .ite (fun _ => .spanned fun _ => .bind (.leaves heq (.no (.pure (.pure rfl)))))
        fun _ => .unexpected
    | string | number | computed => exact .unexpected

end

theorem propertyKey_stuck {Q : PropertyKey → Nat → Prop} (hk : startsKey (rd.kindAt i) = false) :
    Meets rd (propertyKey r cx') i Q := by
  change startsKey (rd.nextAt i).kind = false at hk
  unfold propertyKey
  refine .peek (.ite (fun hname => ?_) fun _ => ?_)
  · unfold startsKey at hk
    rw [hname] at hk
    cases hk
  · split
    all_goals first
      | exact .unexpected
      | (rename_i hkind; rw [hkind] at hk; cases hk)

theorem startsKey_goes_on {k : Token.Kind} (h : startsKey k = true) :
    endsYield k = false ∧ k ≠ .punct .eq := by
  constructor
  · refine Bool.eq_false_iff.mpr fun hends => ?_
    unfold endsYield at hends
    split at hends
    all_goals first | cases h | cases hends
  · rintro rfl
    cases h

theorem Reading.MethodStartAt.eq_of_plain (h : rd.MethodStartAt ⟨.method, false, false⟩ i m) :
    m = i := by
  cases h with
  | named _ hstar | plain _ _ hstar => exact hstar.eq_of_false

section
variable [rd.Ended] (hr : Complete rd d r)
include hr

theorem objectElement_passes {p : Property} (h : Spells rd (.item cx .property p) i j)
    (hnext : endsYield (rd.kindAt j) = true) (hnoIn : cx.noIn = false)
    (hd : rd.tokens.size ≤ i + d) :
    Meets rd (objectElement r cx') i fun _ => PassesTo rd j := by
  have hstuck : ∀ {key : PropertyKey} {k : Nat}, Spells rd (.key cx key) i k →
      endsYield (rd.kindAt k) = false → rd.kindAt k ≠ .punct .eq →
      Meets rd (objectElement r cx') i fun _ => PassesTo rd j := by
    intro key k hkey hends heq
    have hcolon : rd.kindAt k ≠ .punct .colon := by
      intro hk
      rw [hk] at hends
      cases hends
    exact (objectElement_name hr hkey hcolon heq hnoIn hd).mono fun _ _ _ h => .inr (h ▸ hends)
  cases h with
  | spreadProperty hread he hlevel =>
    refine .eats hread fun _ => .yes (.here (.identifier fun m hword _ => .spanned fun _ =>
      .pure ?_))
    rw [← hword.2.1]
    exact (he.covers_name hlevel (by rw [hword.1]; rfl)).passes
  | @methodProperty _ _ _ _ _ _ _ _ _ i₁ i₂ _ hm hkey hcall =>
    have hopen : rd.kindAt i₂ = .punct .lParen := of_decide_eq_true hcall.opens
    obtain ⟨hends, heq⟩ := startsKey_goes_on hkey.opens
    have hstar : ∀ {isGenerator}, rd.MayRead (.punct .star) isGenerator i i₁ →
        Meets rd (objectElement r cx') i fun _ => PassesTo rd j := by
      intro isGenerator hread
      cases hread with
      | yes hread =>
        have hk : startsKey (rd.kindAt i) = false := by rw [hread.1]; rfl
        exact .leaves (by rw [hread.1]; exact nofun) (.no (.isAt
          (fun _ => .here (.bind (propertyKey_stuck hk)))
          fun _ => .here (.bind (propertyKey_stuck hk))))
      | no => exact hstuck hkey (by rw [hopen]; rfl) (by rw [hopen]; exact nofun)
    have hword : ∀ {k i₃}, rd.Reads k i i₃ → k.isName = true →
        endsYield (rd.kindAt i₃) = false → rd.kindAt i₃ ≠ .punct .eq →
        Meets rd (objectElement r cx') i fun _ => PassesTo rd j := by
      rintro k i₃ ⟨rfl, htake⟩ hname hends heq
      exact hstuck (.keyName hname rfl htake) hends heq
    cases hm with
    | named _ hread | plain _ _ hread => exact hstar hread
    | get _ hget | set _ hget => exact hword hget.1 rfl hends heq
    | async _ hread hgen =>
      cases hgen with
      | yes hread' =>
        exact hword hread rfl (by rw [hread'.1]; rfl) (by rw [hread'.1]; exact nofun)
      | no => exact hword hread rfl hends heq
  | pair hm hkey hcolon he hlevel =>
    obtain rfl := hm.eq_of_plain
    refine .leaves (startsKey_ne_spread hkey.opens) (.no (.isAt (fun _ => ?_) fun _ => ?_))
    all_goals
      exact .here (.found (propertyKey_finds hr hkey (.excused hnoIn.symm) (by omega))
        fun _ _ _ => .eats hcolon fun _ => .yes (boundValue_passes hr he hlevel hnext hnoIn
          (by omega) fun _ _ _ h => .pure h))
  | shorthand _ hword _ hcolon =>
    have heq : rd.kindAt j ≠ .punct .eq := by
      intro hk
      rw [hk] at hnext
      cases hnext
    exact (objectElement_name hr (.keyName (by rw [hword.1.1]; rfl) rfl hword.1.2) hcolon heq hnoIn
      hd).mono fun _ _ _ h => .inl h

theorem pattern_passes (hbase : BaseAt rd cx i m x)
    (hk : rd.kindAt i = .punct .lBracket ∨ rd.kindAt i = .punct .lBrace)
    (hd : rd.tokens.size ≤ i + d + 1) : Meets rd (pattern r cx') i fun _ k => i < k ∧ k = m := by
  unfold pattern
  refine .here (.peekKind ?_)
  rcases hk with hk | hk
  · obtain ⟨sp, elements, i₁, rfl, hopen, helements⟩ := hbase.elements hk
    rw [hk]
    refine .readMark hopen fun hlt => .bind (.mono (.commaList_finds (c := .element)
      (fun _ => ()) (fun _ => ()) helements rfl fun hx hnext hle => ?_) ?_)
    · cases hx with
      | element he =>
        exact (arrayElement_passes hr he hnext rfl (by omega)).mono fun _ _ _ h => h.item
    · rintro _ _ hle ⟨rfl, _⟩
      exact .spanned fun _ => .pure ⟨by omega, rfl⟩
  · obtain ⟨sp, properties, i₁, rfl, hopen, hproperties⟩ := hbase.properties hk
    rw [hk]
    refine .readMark hopen fun hlt => .bind (.mono (.commaList_finds (c := .property)
      (fun _ => ()) (fun _ => ()) hproperties rfl fun hx hnext hle =>
        (objectElement_passes hr hx hnext rfl (by omega)).mono fun _ _ _ h => h.item) ?_)
    rintro _ _ hle ⟨rfl, _⟩
    exact .spanned fun _ => .pure ⟨by omega, rfl⟩

end

/-- Where a bracket or a brace opens an expression, it is an assignment to a
pattern, or it starts with a literal. -/
theorem Derives.lead_literal [rd.Ended] (h : Spells rd (.expr cx e) i j)
    (hlevel : Level.assignment ≤ e.level)
    (hk : rd.kindAt i = .punct .lBracket ∨ rd.kindAt i = .punct .lBrace) :
    (∃ sp target value, e = .assignPattern sp target value) ∨
      ∃ x m, BaseAt rd cx i m x ∧ Extends rd cx x m e j := by
  have hstart : startsOperand (rd.kindAt i) = true := by
    rcases hk with hk | hk <;> rw [hk] <;> rfl
  rcases h.lead_operand hlevel hstart with ⟨_, hname⟩ | ⟨_, he⟩ | hlead
  · rcases hk with hk | hk <;> rw [hk] at hname <;> rcases hname with hname | hname <;> cases hname
  · exact .inl he
  · exact .inr hlead

section
variable [rd.Ended] (hr : Complete rd d r)
include hr

theorem pattern_covers (h : Spells rd (.expr cx e) i j) (hlevel : Level.assignment ≤ e.level)
    (hd : rd.tokens.size ≤ i + d + 1) :
    Meets rd (pattern r cx') i fun _ k => i < k ∧ Covers rd cx k j := by
  by_cases hk : rd.kindAt i = .punct .lBracket ∨ rd.kindAt i = .punct .lBrace
  · rcases h.lead_literal hlevel hk with ⟨sp, target, value, rfl⟩ | ⟨x, m, hbase, hext⟩
    · cases h with
      | assignPattern htarget _ heq hvalue hvalueLevel =>
        have hfits : Fits Excused cx.allowIn cx'.allowIn := .excused rfl
        refine (pattern_finds hr htarget hfits hd).mono ?_
        rintro _ _ _ ⟨rfl, _⟩
        exact ⟨htarget.lt rfl, .valued heq hvalue hvalueLevel⟩
    · refine (pattern_passes hr hbase hk hd).mono ?_
      rintro _ _ _ ⟨hlt, rfl⟩
      exact ⟨hlt, hext.covers⟩
  · unfold pattern
    refine .here (.peekKind ?_)
    have hname : namesVariable (rd.kindAt i) = true → Meets rd (do
        let name ← variableName
        return Binding.ident (← spanFrom (rd.nextAt i).span.start) name) i
          fun _ k => i < k ∧ Covers rd cx k j := by
      intro hname
      refine .variableName fun m _ htake hlt => .spanned fun _ => .pure ⟨hlt, ?_⟩
      rw [← htake.1]
      exact h.covers_name hlevel hname
    split
    · rename_i hword
      exact hname (by rw [hword]; rfl)
    · rename_i hasync
      exact hname (by rw [hasync]; rfl)
    · exact absurd (.inl (by assumption)) hk
    · exact absurd (.inr (by assumption)) hk
    · exact .unexpected

theorem params_passes {args : List Expr} (hopen : rd.Reads (.punct .lParen) i i₁)
    (h : Spells rd (.items cx .arg args) i₁ j) (hnoIn : cx.noIn = false)
    (hd : rd.tokens.size ≤ i + d + 1) : Meets rd (params r cx') i fun _ k => k = j :=
  .readMark hopen fun _ => .mono (.commaList_finds (c := .arg) (fun _ => ()) (fun _ => ()) h rfl
    fun hx hnext _ => (param_passes hr hx hnext hnoIn (by omega)).mono fun _ _ _ h => h.item)
    fun _ _ _ h => h.1

end

theorem params_stuck {Q : List Param → Nat → Prop} (hk : rd.kindAt i ≠ .punct .lParen) :
    Meets rd (params r cx') i Q :=
  .expectMark_stuck hk fun _ => trivial

theorem Derives.args_of_paren (h : Spells rd (.expr cx e) i i₁)
    (hclose : rd.Reads (.punct .rParen) i₁ j) : ∃ args, Spells rd (.items cx .arg args) i j := by
  have hothers : ∀ {es : List Expr} {first : Expr} {i i₂ : Nat},
      Spells rd (.item cx .arg first) i i₂ → Spells rd (.others cx es) i₂ i₁ →
      Spells rd (.items cx .arg (first :: es)) i j := by
    intro es
    induction es with
    | nil =>
      intro first i i₂ _ hes
      cases hes
    | cons e es ih =>
      intro first i i₂ hfirst hes
      cases hes with
      | other hcomma he hlevel =>
        exact .moreItems hfirst hcomma (.lastItem (.plainArg he hlevel) hclose)
      | moreOthers hcomma he hlevel hrest =>
        exact .moreItems hfirst hcomma (ih (.plainArg he hlevel) hrest)
  by_cases hsequence : ∃ span items, e = .sequence span items
  · obtain ⟨span, items, rfl⟩ := hsequence
    cases h with
    | sequence hfirst hlevel hrest => exact ⟨_, hothers (.plainArg hfirst hlevel) hrest⟩
  · have hlevel := assignment_le_level fun span items he => hsequence ⟨span, items, he⟩
    exact ⟨[e], .lastItem (.plainArg h hlevel) hclose⟩

/-!
# Arrow functions

An arrow function is tried wherever parameters could stand, and gets stuck if no
arrow follows them.
-/

theorem Extends.no_arrow (h : Extends rd cx x m e j) (hends : Ends rd cx.noIn j e)
    (hk : rd.kindAt m = .punct .arrow) : rd.breaksAt m = true := by
  rcases h.goesOn with ⟨_, rfl⟩ | hgoes
  · exact hends.arrow hk
  · rw [hk] at hgoes
    cases hnoIn : cx.noIn <;> rw [hnoIn] at hgoes <;> cases hgoes

theorem arrowFunction_stuck_of_params [rd.Ended]
    (hparams : ∀ isAsync i₁, rd.placed.MayRead (.keyword .kwAsync) isAsync i i₁ →
      Meets rd (arrowParams r (Context.function isAsync false)) i₁ fun _ k =>
        rd.kindAt k = .punct .arrow → rd.breaksAt k = true) :
    Meets rd (arrowFunction r cx') i fun _ _ => False := by
  have hrest : ∀ isAsync i₁ start, rd.placed.MayRead (.keyword .kwAsync) isAsync i i₁ →
      Meets rd (arrowRest r cx' start isAsync) i₁ fun _ _ => False :=
    fun isAsync i₁ start hasync => (hparams isAsync i₁ hasync).next fun _ _ _ hnone =>
      .newlineBefore (.ite (fun _ => .bind .unexpected) fun hline =>
        .expectMark_stuck (fun hk => hline (hnone hk)) fun _ => trivial)
  exact .here (.eat (fun i₁ hread _ => hrest true i₁ _ (.yes hread))
    fun hno => hrest false i _ (.no hno))

theorem Derives.lead_params [rd.Ended] (h : Spells rd (.expr cx e) i j)
    (hlevel : Level.assignment ≤ e.level) (harrow : isArrow e = false)
    (hk : namesVariable (rd.kindAt i) = true ∨ rd.kindAt i = .punct .lParen) :
    ∃ x m, BaseAt rd cx i m x ∧ Extends rd cx x m e j := by
  have hstart : startsOperand (rd.kindAt i) = true := by
    rcases hk with hk | hk
    · unfold namesVariable at hk
      rw [Bool.or_eq_true, decide_eq_true_eq, decide_eq_true_eq] at hk
      rcases hk with hk | hk <;> rw [hk] <;> rfl
    · rw [hk]
      rfl
  rcases h.lead_operand hlevel hstart with ⟨hyes, _⟩ | ⟨hmark, _⟩ | hlead
  · cases hyes.symm.trans harrow
  · rcases hmark with hmark | hmark <;> rw [hmark] at hk <;> rcases hk with hk | hk <;> cases hk
  · exact hlead

section
variable [rd.Ended] (hr : Complete rd d r)
include hr

theorem arrowParams_stuck_async (h : Spells rd (.expr cx e) i j)
    (hlevel : Level.assignment ≤ e.level) (harrow : isArrow e = false) (hends : Ends rd cx.noIn j e)
    (hasync : rd.placed.Reads (.keyword .kwAsync) i i₁) (hd : rd.tokens.size ≤ i + d + 1) :
    Meets rd (arrowParams r cx') i₁ fun _ k =>
      rd.kindAt k = .punct .arrow → rd.breaksAt k = true := by
  have hk : rd.kindAt i = .keyword .kwAsync := hasync.1
  have hpast : rd.past i = i₁ := hasync.2.1
  have hlt := hasync.lt
  obtain ⟨x, m, hbase, hext⟩ := h.lead_params hlevel harrow (.inl (by rw [hk]; rfl))
  unfold arrowParams
  cases hbase with
  | word _ htake =>
    obtain rfl : m = i₁ := htake.1.symm.trans hpast
    refine .isAt (fun hword => .yes (.here ?_)) fun _ => .no ?_
    · -- A name behind `async` belongs to the next statement.
      refine .identifier fun i₂ hread _ => .spanned fun _ => .pure fun hk' =>
        Decidable.byContradiction fun hline => ?_
      have hsecond : rd.past m = i₂ := hread.2.1
      rcases hext.goesOn with ⟨rfl, rfl⟩ | hgoes
      · have hlast : (rd.token (m - 1)).kind = .keyword .kwAsync := by
          rw [← hpast]
          exact hk
        refine hends.halts.2 rfl hlast ⟨hword, ?_, ?_⟩
        · rw [hsecond]
          exact hk'
        · rw [hsecond]
          exact Bool.eq_false_iff.mpr hline
      · rw [hword] at hgoes
        cases hnoIn : cx.noIn <;> rw [hnoIn] at hgoes <;> cases hgoes
    · by_cases hparen : rd.kindAt m = .punct .lParen
      · rcases hext.called hparen with ⟨rfl, rfl⟩ | ⟨sp, args, i₁, m', hopen, hargs, hext'⟩
        · have hstops := (stops_of_lt_level (Level.conditional_lt_of_closed rfl)).mp hends.stops
          have htail := ((operandStops_of_closed rfl).mp hstops.1).1
          rw [hparen] at htail
          cases htail
        · exact (params_passes hr hopen hargs rfl (by omega)).mono fun _ _ _ h =>
            h ▸ hext'.no_arrow hends
      · exact params_stuck hparen
  | asyncFunction _ hfunction =>
    rw [hpast] at hfunction
    refine .misses (by rw [hfunction]; exact nofun) (.no (params_stuck ?_))
    rw [hfunction]
    exact nofun
  | array hopen | object hopen | paren hopen => cases hk.symm.trans hopen.1
  | other hother =>
    rw [hk] at hother
    cases hother

theorem arrowParams_stuck (h : Spells rd (.expr cx e) i j) (hlevel : Level.assignment ≤ e.level)
    (harrow : isArrow e = false) (hends : Ends rd cx.noIn j e)
    (hasync : rd.kindAt i ≠ .keyword .kwAsync) (hd : rd.tokens.size ≤ i + d + 1) :
    Meets rd (arrowParams r cx') i fun _ k =>
      rd.kindAt k = .punct .arrow → rd.breaksAt k = true := by
  refine .isAt (fun hk => .yes (.here ?_)) fun hword => .no ?_
  · obtain ⟨x, m, hbase, hext⟩ := h.lead_params hlevel harrow (.inl (by rw [hk]; rfl))
    refine .identifier fun i₁ hread _ => .spanned fun _ => .pure ?_
    cases hbase with
    | word _ htake =>
      obtain rfl : m = i₁ := htake.1.symm.trans hread.2.1
      exact hext.no_arrow hends
    | asyncFunction hyes => exact absurd hyes hasync
    | array hopen | object hopen | paren hopen => cases hk.symm.trans hopen.1
    | other hother =>
      rw [hk] at hother
      cases hother
  · by_cases hk : rd.kindAt i = .punct .lParen
    · obtain ⟨x, m, hbase, hext⟩ := h.lead_params hlevel harrow (.inr hk)
      cases hbase with
      | paren hopen hinner hclose =>
        obtain ⟨args, hargs⟩ := hinner.args_of_paren hclose
        exact (params_passes hr hopen hargs rfl hd).mono fun _ _ _ h => h ▸ hext.no_arrow hends
      | word hname =>
        rw [hk] at hname
        cases hname
      | asyncFunction hyes => exact absurd hyes hasync
      | array hopen | object hopen => cases hk.symm.trans hopen.1
      | other _ hparen => exact absurd hk hparen
    · exact params_stuck hk

theorem arrowFunction_stuck (h : Spells rd (.expr cx e) i j) (hlevel : Level.assignment ≤ e.level)
    (harrow : isArrow e = false) (hends : Ends rd cx.noIn j e) (hd : rd.tokens.size ≤ i + d + 1) :
    Meets rd (arrowFunction r cx') i fun _ _ => False := by
  refine arrowFunction_stuck_of_params fun isAsync i₁ hasync => ?_
  cases hasync with
  | yes hread => exact arrowParams_stuck_async hr h hlevel harrow hends hread hd
  | no hno => exact arrowParams_stuck hr h hlevel harrow hends hno hd

end

/-!
# Assignments to patterns

An assignment to a pattern is tried at every bracket and at every brace, and gets
stuck if no equals sign follows.
-/

theorem BaseAt.literal (h : BaseAt rd cx i m x)
    (hk : rd.kindAt i = .punct .lBracket ∨ rd.kindAt i = .punct .lBrace) :
    x.level = Level.closed ∧ x.isAssignable = false := by
  rcases hk with hk | hk
  · obtain ⟨_, _, _, rfl, _⟩ := h.elements hk
    exact ⟨rfl, rfl⟩
  · obtain ⟨_, _, _, rfl, _⟩ := h.properties hk
    exact ⟨rfl, rfl⟩

theorem Extends.whole_of_eq (h : Extends rd cx x m e j) (hassignable : x.isAssignable = false)
    (heq : rd.kindAt m = .punct .eq) : x = e ∧ m = j := by
  rcases h.assigned heq with hwhole | ⟨hyes, _⟩
  · exact hwhole
  · cases hyes.symm.trans hassignable

theorem patternAssignment_stuck [rd.Ended] (hr : Complete rd d r) (hbase : BaseAt rd cx i m x)
    (hext : Extends rd cx x m e j)
    (hk : rd.kindAt i = .punct .lBracket ∨ rd.kindAt i = .punct .lBrace)
    (hends : Ends rd cx.noIn j e) (hd : rd.tokens.size ≤ i + d + 1) :
    Meets rd (patternAssignment r cx') i fun _ _ => False := by
  refine .here ((pattern_passes hr hbase hk hd).next ?_)
  rintro _ _ _ ⟨_, rfl⟩
  obtain ⟨hclosed, hassignable⟩ := hbase.literal hk
  refine .expectMark_stuck (fun heq => ?_) fun _ => trivial
  obtain ⟨rfl, rfl⟩ := hext.whole_of_eq hassignable heq
  have hstops := (stops_of_lt_level (Level.conditional_lt_of_closed hclosed)).mp hends.stops
  have hnone := hstops.2.2.2
  rw [heq] at hnone
  cases hnone

theorem plainAssignment_stuck [rd.Ended] {target : Binding} (hsound : Sound rd (Guarded rd) d r)
    (hr : Complete rd d r) (htarget : Spells rd (.binding cx.allowIn target) i i₁)
    (hk : rd.kindAt i = .punct .lBracket ∨ rd.kindAt i = .punct .lBrace)
    (heq : rd.kindAt i₁ = .punct .eq) (hd : rd.tokens.size ≤ i + d + 1) :
    Meets rd (plainAssignment r cx') i fun _ _ => False := by
  rcases Nat.lt_or_ge i rd.tokens.size with hi | hi
  case inr => exact .beyond hi
  refine .here ((conditional_sound hsound hd).next ?_)
  rintro e' m' _ ⟨hguarded, hlevel, _⟩
  have he' : Spells rd.placed (.expr cx' e') i m' := hguarded.tamed
  rcases he'.lead_literal (Nat.le_trans (by decide) hlevel) hk with ⟨_, _, _, rfl⟩ |
    ⟨x, m, hbase, hext⟩
  · exact absurd hlevel (by simp only [Expr.level]; decide)
  have hpasses := @pattern_passes m x rd.placed i d r cx' cx _ hr hbase hk hd
  obtain ⟨_, _, ⟨rfl, _⟩, _, rfl⟩ := Runs.both (pattern_finds hr htarget .refl hd) hpasses hi
  obtain ⟨_, hassignable⟩ := hbase.literal hk
  obtain ⟨rfl, rfl⟩ := hext.whole_of_eq hassignable heq
  refine .peekKind ?_
  rw [heq, show AssignOp.ofKind? (.punct .eq) = some .assign from rfl]
  dsimp only
  rw [hassignable]
  exact .yes (.bind .unexpected)

end

end Grammar
end ScriptBundler
