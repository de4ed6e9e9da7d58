import ScriptBundler.Proofs.Completeness

/-!
# Operators are found

Operands with signs and update operators, runs of infix operators and
conditional expressions.  What follows an expression decides where its reading
stops, so each statement asks for tokens behind it that do not go on with it.
-/

namespace ScriptBundler
namespace Grammar

open Grammar.Parser

variable {Q : Expr → Nat → Prop} {k : Token.Kind} {op : UpdateOp}

section
variable {rd : Reading} {E : Failure → Prop} {i j d : Nat} {r : Rules} {cx cx' : Context}
  {e : Expr}

theorem primary_stuck (hE : ∀ t, E (.unexpected t))
    (hk : startsOperand (rd.kindAt i) = false) : Runs rd E (primary r cx') i Q := by
  unfold primary
  refine .peek ?_
  change startsOperand (rd.nextAt i).kind = false at hk
  split
  all_goals first
    | exact .allow .unexpected hE
    | (rename_i hkind; rw [hkind] at hk; cases hk)

theorem unary_stuck (hE : ∀ t, E (.unexpected t))
    (hk : rd.kindAt i = .keyword .kwAwait ∧ cx'.inAsync = false ∨ rd.kindAt i = .keyword .kwYield) :
    Runs rd E (unary r cx') i Q := by
  have hupdated : rd.kindAt i ≠ .keyword .kwNew → startsOperand (rd.kindAt i) = false →
      Runs rd E (updated r cx') i Q := fun hnew hstart =>
    .here (.bind (.misses hnew (.no (.bind (primary_stuck hE hstart)))))
  unfold unary
  refine .here (.peekKind ?_)
  rcases hk with ⟨hk, hasync⟩ | hk
  · rw [hk] at hupdated ⊢
    refine .ite (fun h => ?_) fun _ => hupdated nofun rfl
    rw [hasync] at h
    cases h.2
  · rw [hk] at hupdated ⊢
    exact .ite (fun h => nomatch h.1) fun _ => hupdated nofun rfl

section
variable [rd.Ended] (hr : Complete rd d r)
include hr

theorem updated_finds (h : Spells rd (.expr cx e) i j) (hclosed : e.level = Level.closed)
    (hends : startsTail (rd.kindAt j) = false)
    (hupdate : UpdateOp.ofKind? (rd.kindAt j) = none ∨ rd.breaksAt j = true) (hfits : Fits E cx cx')
    (hd : rd.tokens.size ≤ i + d + 1) : Runs rd E (updated r cx') i (Finds Expr.bare e j) := by
  refine .here (.found (operand_finds hr h hclosed hends hfits hd) fun e' _ hbare =>
    .peekKind ?_)
  cases hop : UpdateOp.ofKind? (rd.kindAt j) with
  | none => exact .pure ⟨rfl, hbare⟩
  | some op =>
    have hbreak := hupdate.resolve_left (by rw [hop]; exact nofun)
    exact .newlineBefore (.ite (fun _ => .pure ⟨rfl, hbare⟩) fun hno => absurd hbreak hno)

theorem trailing_finds {sp : Span} {arg : Expr} {i₁ : Nat} (harg : Spells rd (.expr cx arg) i i₁)
    (hclosed : arg.level = Level.closed) (hline : rd.breaksAt i₁ = false) (hread : rd.Reads k i₁ j)
    (hop : UpdateOp.ofKind? k = some op) (hfits : Fits E cx cx') (hd : rd.tokens.size ≤ i + d + 1) :
    Runs rd E (updated r cx') i (Finds Expr.bare (.update sp op false arg) j) := by
  have hk : startsTail k = false ∧ k ≠ .endOfInput := by
    unfold UpdateOp.ofKind? at hop
    split at hop
    all_goals first | exact ⟨rfl, nofun⟩ | cases hop
  refine .here (.found (operand_finds hr harg hclosed (by rw [hread.1]; exact hk.1) hfits hd)
    fun arg' _ hbare => .peekKind ?_)
  rw [hread.1, hop]
  refine .newlineBefore (.ite (fun h => absurd (h.symm.trans hline) nofun) fun _ =>
    .take hread.2 (by rw [hread.1]; exact hk.2) fun _ => .spanned fun _ => .pure ⟨rfl, ?_⟩)
  simp only [Expr.bare, hbare]

end

theorem no_unaryOp_of_updateOp (h : UpdateOp.ofKind? k = some op) : UnaryOp.ofKind? k = none := by
  unfold UpdateOp.ofKind? at h
  split at h
  all_goals first | rfl | cases h

theorem ne_endOfInput_of_unaryOp {op : UnaryOp} (h : UnaryOp.ofKind? k = some op) :
    k ≠ .endOfInput := by
  rintro rfl
  cases h

theorem ne_endOfInput_of_updateOp (h : UpdateOp.ofKind? k = some op) : k ≠ .endOfInput := by
  rintro rfl
  cases h

theorem unary_eq_updated (hk : startsOperand (rd.kindAt i) = true)
    (h : Runs rd E (updated r cx') i Q) : Runs rd E (unary r cx') i Q := by
  obtain ⟨hunary, hupdate, hawait, _⟩ := no_sign_of_startsOperand hk
  unfold unary
  refine .here (.peekKind ?_)
  rw [hunary]
  dsimp only
  rw [hupdate]
  exact .ite (fun h => absurd h.1 hawait) fun _ => h

theorem unary_finds [rd.Ended] (hr : Complete rd d r) (h : Spells rd (.expr cx e) i j)
    (hlevel : Level.unary ≤ e.level) (hstops : OperandStops rd j e) (hfits : Fits E cx cx')
    (hd : rd.tokens.size ≤ i + d + 1) : Runs rd E (unary r cx') i (Finds Expr.bare e j) := by
  have hsigned : ∀ {k i₁ arg start} {f : Span → Expr → Expr}, rd.Reads k i i₁ →
      k ≠ .endOfInput → Spells rd (.expr cx arg) i₁ j → Level.unary ≤ arg.level →
      OperandStops rd j arg → (∀ {sp arg'}, arg'.bare = arg.bare → (f sp arg').bare = e.bare) →
      Runs rd E (do
        let _ ← advance
        let arg ← r.unary cx'
        return f (← spanFrom start) arg) i (Finds Expr.bare e j) :=
    fun hread hk harg hlevel hstops hf => .take hread.2 (hread.1 ▸ hk) fun _ =>
      .found (hr.unary rfl harg hlevel hstops hfits (by omega)) fun _ _ hbare =>
        .spanned fun _ => .pure ⟨rfl, hf hbare⟩
  by_cases hclosed : e.level = Level.closed
  · obtain ⟨hends, hupdate⟩ := (operandStops_of_closed hclosed).mp hstops
    exact unary_eq_updated (h.startsOperand_of_closed hclosed)
      (updated_finds hr h hclosed hends hupdate hfits hd)
  · cases h with
    | unary hread hop harg hargLevel =>
      refine .here (.peekKind ?_)
      rw [hread.1, hop]
      exact hsigned hread (ne_endOfInput_of_unaryOp hop) harg hargLevel hstops fun hbare => by
        simp only [Expr.bare, hbare]
    | leading hread hop harg hargLevel =>
      refine .here (.peekKind ?_)
      rw [hread.1, no_unaryOp_of_updateOp hop]
      dsimp only
      rw [hop]
      exact hsigned hread (ne_endOfInput_of_updateOp hop) harg hargLevel hstops fun hbare => by
        simp only [Expr.bare, hbare]
    | await hread hasync harg hargLevel =>
      by_cases hasync' : cx'.inAsync = true
      · refine .here (.peekKind ?_)
        rw [hread.1]
        refine .ite (fun _ => ?_) fun hno => absurd ⟨rfl, hasync'⟩ hno
        exact hsigned hread nofun harg hargLevel hstops (congrArg (Expr.await .nowhere) ·)
      · rcases hfits with rfl | hfits
        · exact absurd hasync hasync'
        · exact unary_stuck hfits.1 (.inl ⟨hread.1, Bool.eq_false_iff.mpr hasync'⟩)
    | trailing harg hargClosed hline hread hop =>
      exact unary_eq_updated (harg.startsOperand_of_closed hargClosed)
        (trailing_finds hr harg hargClosed hline hread hop hfits hd)
    | @binary _ _ _ op =>
      have hbounds := BinaryOp.level_bounds op
      have hlevel : 16 ≤ op.level := hlevel
      omega
    | conditional | assign | assignPattern | arrow | arrowBlock | delegate | yieldValue
    | yieldNothing | sequence => exact absurd hlevel (by simp only [Expr.level]; decide)
    | _ => exact absurd rfl hclosed

theorem infixOp_ends {noIn : Bool} {op : BinaryOp} (h : infixOp? noIn k = some op) :
    startsTail k = false ∧ UpdateOp.ofKind? k = none ∧ k ≠ .endOfInput := by
  unfold infixOp? at h
  split at h
  · cases h
  · unfold BinaryOp.ofKind? at h
    split at h
    all_goals first | exact ⟨rfl, rfl, nofun⟩ | cases h

theorem operandStops_last (h : OperandStops rd j e) :
    ∀ x ∈ ((operands e).1 :: (operands e).2.map Prod.snd).getLast?,
      OperandStops rd j x := by
  fun_induction operands e with
  | case1 span op left right _ ihRight =>
    have hlist : (operands left).1 :: ((operands left).2 ++
        (op, (operands right).1) :: (operands right).2).map Prod.snd =
        ((operands left).1 :: (operands left).2.map Prod.snd) ++
          ((operands right).1 :: (operands right).2.map Prod.snd) := by
      rw [List.map_append, List.map_cons, List.cons_append]
    intro x hx
    rw [hlist, List.getLast?_append, List.getLast?_cons, Option.some_or, ← List.getLast?_cons] at hx
    exact ihRight h x hx
  | case2 e hbinary =>
    rintro x hx
    cases hx
    exact h

theorem Joined.operandStops {rest : List (BinaryOp × Expr)} (h : Joined rd (Halts rd) cx rest i j)
    (hlast : ∀ x ∈ (e :: rest.map Prod.snd).getLast?, OperandStops rd j x) :
    OperandStops rd i e := by
  cases h with
  | nil => exact hlast e rfl
  | cons hread hop =>
    obtain ⟨htail, hupdate, _⟩ := infixOp_ends hop
    exact operandStops_of_kind (by rw [hread.1]; exact htail) (by rw [hread.1]; exact hupdate)

theorem binary_finds [rd.Ended] (hr : Complete rd d r) (h : Spells rd (.expr cx e) i j)
    (hlevel : Level.conditional < e.level) (hstops : OperandStops rd j e)
    (hnone : infixOp? cx.noIn (rd.kindAt j) = none) (hfits : Fits E cx cx')
    (hd : rd.tokens.size ≤ i + d + 1) : Runs rd E (binary r cx') i (Finds Expr.bare e j) := by
  obtain ⟨m, hfirst, hfirstLevel, hrest⟩ := h.joined hlevel
  have hlast := operandStops_last hstops
  have hop : ∀ k, binaryOp? cx' k = infixOp? cx.noIn k := by
    intro k
    rw [← hfits.noIn_eq]
    rfl
  refine .found (unary_finds hr hfirst hfirstLevel (hrest.operandStops hlast) hfits hd)
    fun first hle hbare => .bind (.mono (.collect_finds bareEntry bareEntry
      (fun rest i' => Joined rd (Halts rd) cx rest i' j ∧
        ∀ x ∈ (rest.map Prod.snd).getLast?, OperandStops rd j x)
      (· = j) ⟨hrest, fun x hx => hlast x ?_⟩ ?_) ?_)
  · cases hmap : (operands e).2.map Prod.snd with
    | nil =>
      rw [hmap] at hx
      cases hx
    | cons y ys =>
      rw [hmap] at hx
      rw [List.getLast?_cons_cons]
      exact hx
  · rintro rest i' hle' ⟨hjoined, hlast'⟩
    refine .peekKind ?_
    rw [hop]
    cases hjoined with
    | nil =>
      rw [hnone]
      exact .pure ⟨rfl, rfl⟩
    | cons hread hinfix harg hargLevel hmore =>
      rw [hread.1, hinfix]
      refine .take hread.2 (by rw [hread.1]; exact (infixOp_ends hinfix).2.2) fun _ =>
        .found (unary_finds hr harg hargLevel (hmore.operandStops hlast') hfits (by omega))
          fun arg' _ hbare' => .pure ⟨by omega, _, _, rfl, ?_, hmore, fun x hx => hlast' x ?_⟩
      · simp only [bareEntry, hbare']
      · cases hmore with
        | nil => cases hx
        | cons => exact hx
  · rintro rest' _ _ ⟨rfl, hbare'⟩
    refine .pure ⟨rfl, ?_⟩
    have hgroup := group_operands h.leveled
    rw [operands_bare] at hgroup
    rw [group_bare, hbare, hbare', hgroup]

/-- An expression without assignments ends before `j`, where an assignment to it
may follow. -/
def Rests (ts : Stream) (noIn : Bool) (j : Nat) : Expr → Prop
  | .conditional _ _ _ no => Ends ts noIn j no
  | e => OperandStops ts j e ∧ infixOp? noIn (ts.kindAt j) = none ∧
      ts.kindAt j ≠ .punct .question

theorem rests_of_lt_level (h : Level.conditional < e.level) :
    Rests rd cx.noIn j e ↔ OperandStops rd j e ∧
      infixOp? cx.noIn (rd.kindAt j) = none ∧ rd.kindAt j ≠ .punct .question := by
  cases e with
  | conditional => exact absurd h (by simp only [Expr.level]; decide)
  | _ => exact Iff.rfl

theorem Ends.rests (h : Ends rd cx.noIn j e) (hlevel : Level.conditional ≤ e.level) :
    Rests rd cx.noIn j e ∧ AssignOp.ofKind? (rd.kindAt j) = none := by
  rcases Nat.lt_or_eq_of_le hlevel with hlt | heq
  · obtain ⟨hoperand, hinfix, hquestion, hassign⟩ := (stops_of_lt_level hlt).mp h.stops
    exact ⟨(rests_of_lt_level hlt).mpr ⟨hoperand, hinfix, hquestion⟩, hassign⟩
  · cases e with
    | conditional => exact ⟨⟨h.toQuiet, h.stops.1, h.halts.2⟩, h.stops.2⟩
    | binary _ op =>
      have hbounds := BinaryOp.level_bounds op
      have hlevel : 4 = op.level := heq
      omega
    | update _ _ leading _ => cases leading <;> exact absurd heq (by simp only [Expr.level]; decide)
    | _ => exact absurd heq (by simp only [Expr.level]; decide)

theorem conditional_finds [rd.Ended] (hr : Complete rd d r) (h : Spells rd (.expr cx e) i j)
    (hlevel : Level.conditional ≤ e.level) (hrests : Rests rd cx.noIn j e) (hfits : Fits E cx cx')
    (hd : rd.tokens.size ≤ i + d + 1) : Runs rd E (conditional r cx') i (Finds Expr.bare e j) := by
  refine .here ?_
  by_cases hlt : Level.conditional < e.level
  · obtain ⟨hstops, hinfix, hquestion⟩ := (rests_of_lt_level hlt).mp hrests
    exact .found (binary_finds hr h hlt hstops hinfix hfits hd) fun _ _ hbare =>
      .leaves hquestion (.no (.pure ⟨rfl, hbare⟩))
  · cases h with
    | conditional htest htestLevel hmark hyes hyesLevel hcolon hno hnoLevel =>
      have hnone : infixOp? cx.noIn (.punct .question) = none := by cases cx.noIn <;> rfl
      refine .found (binary_finds hr htest htestLevel
        (operandStops_of_kind (by rw [hmark.1]; rfl) (by rw [hmark.1]; rfl))
        (by rw [hmark.1]; exact hnone) hfits hd) fun test' _ hbare₁ =>
          .eats hmark fun _ => .yes (.found (hr.assignment rfl hyes hyesLevel
            (.of_endsYield (by rw [hcolon.1]; rfl)) hfits.allowIn (by omega)) fun yes' _ hbare₂ =>
              .readMark hcolon fun _ => .found
                (hr.assignment rfl hno hnoLevel hrests hfits (by omega)) fun no' _ hbare₃ =>
                  .spanned fun _ => .pure ⟨rfl, ?_⟩)
      simp only [Expr.bare, hbare₁, hbare₂, hbare₃]
    | @binary _ _ _ op =>
      have hbounds := BinaryOp.level_bounds op
      exact absurd hbounds.1 hlt
    | assign | assignPattern | arrow | arrowBlock | delegate | yieldValue | yieldNothing | sequence =>
      exact absurd hlevel (by simp only [Expr.level]; decide)
    | _ => exact absurd (by simp only [Expr.level]; decide) hlt

theorem assignOp_ends {noIn : Bool} {op : AssignOp} (h : AssignOp.ofKind? k = some op) :
    startsTail k = false ∧ UpdateOp.ofKind? k = none ∧
      infixOp? noIn k = none ∧ k ≠ .punct .question ∧ k ≠ .endOfInput := by
  unfold AssignOp.ofKind? at h
  split at h
  all_goals first
    | (cases noIn <;> exact ⟨rfl, rfl, rfl, nofun, nofun⟩)
    | cases h

theorem Expr.isAssignable_bare (e : Expr) : e.bare.isAssignable = e.isAssignable := by
  fun_induction Expr.isAssignable e with
  | case1 | case2 | case3 => rfl
  | case4 _ inner ih => exact ih
  | case5 e hident hdot hindex hparen =>
    cases e with
    | ident => exact absurd rfl (hident _ _)
    | dot => exact absurd rfl (hdot _ _ _ _)
    | index => exact absurd rfl (hindex _ _ _)
    | paren => exact absurd rfl (hparen _ _)
    | _ => rfl

/-- Expressions that are read from left to right, without trying something else
first. -/
def isPlain : Expr → Bool
  | .arrow _ _ _ _ | .arrowBlock _ _ _ _ | .assignPattern _ _ _ | .yield _ _ _
  | .sequence _ _ => false
  | _ => true

theorem plainAssignment_finds [rd.Ended] (hr : Complete rd d r) (h : Spells rd (.expr cx e) i j)
    (hplain : isPlain e = true) (hends : Ends rd cx.noIn j e) (hfits : Fits E cx cx')
    (hd : rd.tokens.size ≤ i + d + 1) :
    Runs rd E (plainAssignment r cx') i (Finds Expr.bare e j) := by
  refine .here ?_
  by_cases hlevel : Level.conditional ≤ e.level
  · obtain ⟨hrests, hassign⟩ := hends.rests hlevel
    refine .found (conditional_finds hr h hlevel hrests hfits hd) fun e' _ hbare => .peekKind ?_
    rw [hassign]
    exact .pure ⟨rfl, hbare⟩
  · cases h with
    | assign htarget hassignable hread hop hvalue hvalueLevel =>
      obtain ⟨htail, hupdate, hinfix, hquestion, hend⟩ := assignOp_ends hop
      have hclosed := Level.conditional_lt_of_closed (Expr.closed_of_isAssignable hassignable)
      rw [← hread.1] at htail hupdate hinfix hquestion hend
      refine .found (conditional_finds hr htarget (Nat.le_of_lt hclosed)
        ((rests_of_lt_level hclosed).mpr ⟨operandStops_of_kind htail hupdate, hinfix, hquestion⟩)
        hfits hd) fun target' _ hbare => .peekKind ?_
      rw [hread.1, hop]
      have hassignable' : target'.isAssignable = true := by
        rw [← Expr.isAssignable_bare, hbare, Expr.isAssignable_bare]
        exact hassignable
      dsimp only
      rw [hassignable']
      refine .no (.take hread.2 hend fun _ => .found (hr.assignment rfl hvalue hvalueLevel
        ⟨hends.toQuiet, hends.halts⟩ hfits (by omega)) fun value' _ hbare' =>
          .spanned fun _ => .pure ⟨rfl, ?_⟩)
      simp only [Expr.bare, hbare, hbare']
    | arrow | arrowBlock | assignPattern | delegate | yieldValue | yieldNothing | sequence =>
      cases hplain
    | @binary _ _ _ op =>
      have hbounds := BinaryOp.level_bounds op
      exact absurd (Nat.le_of_lt hbounds.1) hlevel
    | _ => exact absurd (by simp only [Expr.level]; decide) hlevel

end

end Grammar
end ScriptBundler
