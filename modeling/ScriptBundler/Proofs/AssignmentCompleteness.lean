import ScriptBundler.Proofs.Alternatives

/-!
# Expressions between commas are found

Assignments, arrow functions and `yield`, with the alternatives that are tried
before them out of the way.
-/

namespace ScriptBundler
namespace Grammar

open Grammar.Parser

section
variable {rd : Reading} [rd.Ended] {E : Failure → Prop} {i j d : Nat} {r : Rules}
  {cx cx' : Context} {e : Expr}

theorem startsExpr_goes_on {k : Token.Kind} (h : startsExpr k = true) :
    endsYield k = false ∧ k ≠ .punct .star := by
  constructor
  · refine Bool.eq_false_iff.mpr fun hends => ?_
    unfold endsYield at hends
    split at hends
    all_goals first | cases h | cases hends
  · rintro rfl
    cases h

theorem yieldExpr_finds {sp : Span} {delegate : Bool} {arg : Option Expr}
    (hr : Complete rd d r) (h : Spells rd (.expr cx (.yield sp delegate arg)) i j)
    (hends : Ends rd cx.noIn j (.yield sp delegate arg)) (hfits : Fits E cx cx')
    (hd : rd.tokens.size ≤ i + d + 1) :
    Runs rd E (yieldExpr r cx') i (Finds Expr.bare (.yield sp delegate arg) j) := by
  refine .here ?_
  cases h with
  | delegate hword _ hline hstar harg hlevel =>
    refine .readKeyword hword fun _ => .newlineBefore
      (.ite (fun h => absurd (h.symm.trans hline) nofun) fun _ => .eats hstar fun _ =>
        .newlineBefore (.yes (.bind (.pure (.no (.bind (.map ?_)))))))
    refine (hr.assignment rfl harg hlevel ⟨hends.toQuiet, hends.halts⟩ hfits (by omega)).mono ?_
    rintro arg' _ _ ⟨rfl, hbare⟩
    exact .spanned fun _ => .pure ⟨rfl, congrArg (fun e => Expr.yield .nowhere true (some e)) hbare⟩
  | yieldValue hword _ hline harg hlevel =>
    obtain ⟨hgoes, hstar⟩ := startsExpr_goes_on harg.opens
    refine .readKeyword hword fun _ => .newlineBefore
      (.ite (fun h => absurd (h.symm.trans hline) nofun) fun _ => .leaves hstar (.newlineBefore
        (.no (.ite (fun h => absurd (h.symm.trans hline) nofun) fun _ =>
          .peekKind (.bind (.pure ?_))))))
    rw [hgoes]
    refine .no (.bind (.map ?_))
    refine (hr.assignment rfl harg hlevel ⟨hends.toQuiet, hends.halts⟩ hfits (by omega)).mono ?_
    rintro arg' _ _ ⟨rfl, hbare⟩
    exact .spanned fun _ =>
      .pure ⟨rfl, congrArg (fun e => Expr.yield .nowhere false (some e)) hbare⟩
  | yieldNothing hword _ hnothing =>
    have hend : ∀ start, Runs rd E (do
        return Expr.yield (← spanFrom start) false none) j
        (Finds Expr.bare (.yield sp false none) j) :=
      fun _ => .spanned fun _ => .pure ⟨rfl, rfl⟩
    refine .readKeyword hword fun _ => .newlineBefore (.ite (fun hbreak => ?_) fun hline => ?_)
    · exact .bind (.pure (.newlineBefore (.no (.ite (fun _ => .bind (.pure (.yes
        (.bind (.pure (hend _)))))) fun h => absurd hbreak h))))
    · have hyield := hnothing.resolve_left hline
      have hstar : rd.kindAt j ≠ .punct .star := by
        intro hk
        rw [hk] at hyield
        cases hyield
      refine .leaves hstar (.newlineBefore (.no (.ite (fun h => absurd h hline) fun _ =>
        .peekKind (.bind (.pure ?_)))))
      rw [hyield]
      exact .yes (.bind (.pure (hend _)))

theorem Derives.yield_of_kind (h : Spells rd (.expr cx e) i j) (hlevel : Level.assignment ≤ e.level)
    (hk : rd.kindAt i = .keyword .kwYield) : ∃ sp delegate arg, e = .yield sp delegate arg := by
  have hno : ∀ {k}, rd.kindAt i = k → k ≠ .keyword .kwYield → False := by
    rintro k rfl hne
    exact hne hk
  rcases h.lead with hother | ⟨x, m, hbase, hx, _⟩
  · cases hother with
    | signed hsign =>
      rw [hk] at hsign
      rcases hsign with hsign | hsign | hsign <;> cases hsign
    | yield => exact ⟨_, _, _, rfl⟩
    | arrow => cases h with
      | arrow hhead =>
        have hopens := hhead.opens
        rw [hk] at hopens
        cases hopens
    | arrowBlock => cases h with
      | arrowBlock hhead =>
        have hopens := hhead.opens
        rw [hk] at hopens
        cases hopens
    | assignPattern hmark => rcases hmark with hmark | hmark <;> exact (hno hmark nofun).elim
    | sequence => exact absurd hlevel (by simp only [Expr.level]; decide)
  · have hstart := hx.startsOperand_of_base hbase
    rw [hk] at hstart
    cases hstart

omit [rd.Ended] in
theorem arrowPossible_finds {isAsync : Bool} {params : List Param} {m : Nat} {α : Type}
    {f : Bool → Parser α} {Q : α → Nat → Prop} (h : Spells rd (.arrowHead isAsync params) i m)
    (hf : Runs rd E (f true) i Q) : Runs rd E (arrowPossible >>= f) i Q := by
  refine .bind (.peekKind ?_)
  cases h with
  | @arrowName _ _ _ _ _ i₁ i₂ _ hasync hword _ harrow =>
    cases hasync with
    | yes hread =>
      have hsecond : rd.kindAt (rd.past i) = .identifier := hread.2.1 ▸ hword.1.1
      rw [hread.1]
      refine .peekSecondKind (.pure ?_)
      rw [hsecond]
      exact hf
    | no =>
      have hsecond : rd.kindAt (rd.past i) = .punct .arrow := hword.1.2.1 ▸ harrow.1
      rw [hword.1.1]
      refine .peekSecondKind (.pure ?_)
      rw [hsecond]
      exact hf
  | arrowParams hasync hopen =>
    cases hasync with
    | yes hread =>
      have hsecond : rd.kindAt (rd.past i) = .punct .lParen := hread.2.1 ▸ hopen.1
      rw [hread.1]
      refine .peekSecondKind (.pure ?_)
      rw [hsecond]
      exact hf
    | no =>
      rw [hopen.1]
      exact .pure hf

theorem arrowParams_finds {isAsync : Bool} {ps : List Param} {i₁ : Nat}
    (hr : Complete rd d r) (h : Spells rd (.arrowHead isAsync ps) i j)
    (hasync : rd.MayRead (.keyword .kwAsync) isAsync i i₁) (hd : rd.tokens.size ≤ i₁ + d + 1) :
    Runs rd E (arrowParams r (Context.function isAsync false)) i₁ fun ps' k =>
      i₁ < k ∧ Param.listBare ps' = Param.listBare ps ∧ rd.breaksAt k = false ∧
        rd.Reads (.punct .arrow) k j := by
  have hsame : ∀ {i₂}, rd.MayRead (.keyword .kwAsync) isAsync i i₂ → i₁ = i₂ := by
    intro i₂ hasync'
    cases hasync with
    | yes hread => cases hasync' with
      | yes hread' => exact hread.2.1.symm.trans hread'.2.1
    | no => exact hasync'.eq_of_false.symm
  cases h with
  | arrowName hasync' hword hline harrow =>
    obtain rfl := hsame hasync'
    exact .sees hword.1.1 (.yes (.here (.readName hword fun hlt => .spanned fun _ =>
      .pure ⟨hlt, rfl, hline, harrow⟩)))
  | arrowParams hasync' hopen hps hline harrow =>
    obtain rfl := hsame hasync'
    refine .misses (by rw [hopen.1]; exact nofun) (.no
      ((params_finds hr hopen hps .refl hd).mono ?_))
    rintro ps' _ _ ⟨rfl, hbare⟩
    exact ⟨Nat.lt_of_lt_of_le hopen.lt hps.le, hbare, hline, harrow⟩

theorem arrowHead_finds {isAsync : Bool} {ps : List Param} {m start : Nat}
    {Q : Expr → Nat → Prop} (hr : Complete rd d r) (h : Spells rd (.arrowHead isAsync ps) i m)
    (hd : rd.tokens.size ≤ i + d + 1)
    (hbody : ∀ ps', i < m → Param.listBare ps' = Param.listBare ps → Runs rd E (do
        if ← atMark .lBrace then
          let body ← block r (Context.function isAsync false)
          return Expr.arrowBlock (← spanFrom start) isAsync ps' body
        else
          let body ← r.assignment (Context.arrow isAsync cx'.noIn)
          return Expr.arrow (← spanFrom start) isAsync ps' body) m Q) :
    Runs rd E (eatKeyword .kwAsync >>= arrowRest r cx' start) i Q := by
  obtain ⟨i₁, hasync⟩ : ∃ i₁, rd.MayRead (.keyword .kwAsync) isAsync i i₁ := by
    cases h with
    | arrowName hasync | arrowParams hasync => exact ⟨_, hasync⟩
  refine .mayEat hasync fun hle => (arrowParams_finds hr h hasync (by omega)).next ?_
  rintro ps' k _ ⟨hlt, hbare, hline, harrow⟩
  exact .newlineBefore (.ite (fun h => absurd (h.symm.trans hline) nofun) fun _ =>
    .readMark harrow fun _ => hbody ps' (by omega) hbare)

theorem arrowFunction_finds (hr : Complete rd d r) (h : Spells rd (.expr cx e) i j)
    (harrow : isArrow e = true) (hends : Ends rd cx.noIn j e) (hnoIn : cx'.noIn = cx.noIn)
    (hd : rd.tokens.size ≤ i + d + 1) :
    Runs rd E (arrowFunction r cx') i (Finds Expr.bare e j) := by
  refine .here ?_
  cases h with
  | arrow hhead hbrace hbody hlevel =>
    refine arrowHead_finds hr hhead hd fun ps' hlt hbare => .misses hbrace (.no ?_)
    rw [hnoIn]
    refine .found (hr.assignment rfl hbody hlevel ⟨hends.toQuiet, hends.halts⟩ .refl (by omega))
      fun body' _ hbare' => .spanned fun _ => .pure ⟨rfl, ?_⟩
    simp only [Expr.bare, hbare, hbare']
  | arrowBlock hhead hbody =>
    refine arrowHead_finds hr hhead hd fun ps' hlt hbare => .sees (of_decide_eq_true hbody.opens)
      (.yes (.found (block_finds hr hbody (by omega)) fun body' _ hbare' => .spanned fun _ =>
        .pure ⟨rfl, ?_⟩))
    simp only [Expr.bare, hbare, hbare']
  | _ => cases harrow

theorem patternAssignment_finds {sp : Span} {target : Binding} {value : Expr}
    (hr : Complete rd d r) (h : Spells rd (.expr cx (.assignPattern sp target value)) i j)
    (hends : Ends rd cx.noIn j (.assignPattern sp target value)) (hfits : Fits E cx cx')
    (hd : rd.tokens.size ≤ i + d + 1) :
    Runs rd E (patternAssignment r cx') i (Finds Expr.bare (.assignPattern sp target value) j) := by
  cases h with
  | assignPattern htarget _ heq hvalue hlevel =>
    refine .here (.found (pattern_finds hr htarget hfits.allowIn hd) fun target' _ hbare =>
      .readMark heq fun _ => .found (hr.assignment rfl hvalue hlevel ⟨hends.toQuiet, hends.halts⟩
        hfits (by omega)) fun value' _ hbare' => .spanned fun _ => .pure ⟨rfl, ?_⟩)
    simp only [Expr.bare, hbare, hbare']

/-- An expression that is neither an arrow function nor `yield`: an assignment
to a pattern is tried before the others. -/
theorem assignment_finds_plain (hts : rd.remembers = false) (hsound : Sound rd (Guarded rd) d r)
    (hr : Complete rd d r) (h : Spells rd (.expr cx e) i j)
    (hlevel : Level.assignment ≤ e.level) (hends : Ends rd cx.noIn j e)
    (harrow : isArrow e = false) (hyield : ∀ sp delegate arg, e ≠ .yield sp delegate arg)
    (hfits : Fits E cx cx') (hd : rd.tokens.size ≤ i + d + 1) :
    Runs rd E (do
      let assigned ←
        if rd.kindAt i = .punct .lBrace ∨ rd.kindAt i = .punct .lBracket then
          speculate .patternAssignment cx' (patternAssignment r cx')
        else
          pure none
      match assigned with
      | some e => return e
      | none => plainAssignment r cx') i (Finds Expr.bare e j) := by
  by_cases hpattern : ∃ sp target value, e = .assignPattern sp target value
  · obtain ⟨sp, target, value, rfl⟩ := hpattern
    have hspells := h
    cases hspells with
    | assignPattern htarget hmark heq =>
      have hk := htarget.opens_bracket hmark
      refine .ite (fun _ => .bind ?_) fun hno => absurd hk.symm hno
      rcases hfits with rfl | ⟨hE, hnoIn⟩
      · exact .speculateSure hts ((patternAssignment_finds hr h hends .refl hd).mono
          fun _ _ _ hfinds => .pure hfinds)
      · refine .speculate ((patternAssignment_finds hr h hends (.excused hnoIn) hd).mono
          fun _ _ _ hfinds => .pure hfinds) ?_
        exact .mono (.allow (plainAssignment_stuck hsound hr htarget hk heq.1 hd) hE)
          fun _ _ _ => False.elim
  · have hplain : isPlain e = true := by
      cases e with
      | arrow | arrowBlock => cases harrow
      | assignPattern => exact absurd ⟨_, _, _, rfl⟩ hpattern
      | yield => exact absurd rfl (hyield _ _ _)
      | sequence => exact absurd hlevel (by simp only [Expr.level]; decide)
      | _ => rfl
    have hrest := plainAssignment_finds hr h hplain hends hfits hd
    refine .ite (fun hk => ?_) fun _ => .bind (.pure hrest)
    rcases h.lead_literal hlevel hk.symm with he | ⟨x, m, hbase, hext⟩
    · exact absurd he hpattern
    · exact .bind (.speculate ((patternAssignment_stuck hr hbase hext hk.symm hends hd).mono
        fun _ _ _ => False.elim) hrest)

theorem arrowAttempt_skips {f : Parser Expr} {Q : Expr → Nat → Prop}
    (hr : Complete rd d r) (h : Spells rd (.expr cx e) i j)
    (hlevel : Level.assignment ≤ e.level) (hends : Ends rd cx.noIn j e)
    (harrow : isArrow e = false) (hd : rd.tokens.size ≤ i + d + 1) (hf : Runs rd E f i Q) :
    Runs rd E (do
      let arrow ←
        if ← arrowPossible then speculate .arrow cx' (arrowFunction r cx') else pure none
      match arrow with
      | some e => return e
      | none => f) i Q :=
  .arrowPossible fun _ => .ite (fun _ => .bind (.speculate
    ((arrowFunction_stuck hr h hlevel harrow hends hd).mono nofun) hf)) fun _ => .bind (.pure hf)

theorem assignment_finds (hts : rd.remembers = false) (hsound : Sound rd (Guarded rd) d r)
    (hr : Complete rd d r) (h : Spells rd (.expr cx e) i j) (hlevel : Level.assignment ≤ e.level)
    (hends : Ends rd cx.noIn j e) (hfits : Fits E cx cx') (hd : rd.tokens.size ≤ i + d + 1) :
    Runs rd E (assignment r cx') i (Finds Expr.bare e j) := by
  refine .peekKind ?_
  by_cases hyield : ∃ sp delegate arg, e = .yield sp delegate arg
  · obtain ⟨sp, delegate, arg, rfl⟩ := hyield
    have hword : rd.kindAt i = .keyword .kwYield ∧ cx.inGenerator = true := by
      cases h with
      | delegate hread hgen | yieldValue hread hgen | yieldNothing hread hgen =>
        exact ⟨hread.1, hgen⟩
    refine .ite (fun _ => yieldExpr_finds hr h hends hfits hd) fun hno => ?_
    rcases hfits with rfl | ⟨hE, _⟩
    · exact absurd hword hno
    · refine arrowAttempt_skips hr h hlevel hends rfl hd ?_
      rw [hword.1]
      refine .ite (fun h => absurd h nofun) fun _ => .bind (.pure ?_)
      exact .here (.bind (.here (.bind (.bind (unary_stuck hE (.inr hword.1))))))
  · have hkind : rd.kindAt i ≠ .keyword .kwYield := fun hk => hyield (h.yield_of_kind hlevel hk)
    refine .ite (fun h => absurd h.1 hkind) fun _ => ?_
    by_cases harrow : isArrow e = true
    · have hrest := arrowFunction_finds (E := fun _ => False) hr h harrow hends hfits.noIn_eq hd
      cases h with
      | arrow hhead | arrowBlock hhead =>
        exact arrowPossible_finds hhead (.yes (.bind (.speculateSure hts
          (hrest.mono fun _ _ _ hfinds => .pure hfinds))))
      | _ => cases harrow
    · have harrow := Bool.eq_false_iff.mpr harrow
      exact arrowAttempt_skips hr h hlevel hends harrow hd
        (assignment_finds_plain hts hsound hr h hlevel hends harrow
          (fun sp delegate arg he => hyield ⟨sp, delegate, arg, he⟩) hfits hd)

end

end Grammar
end ScriptBundler
