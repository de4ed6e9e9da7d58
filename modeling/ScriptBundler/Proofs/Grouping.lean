import ScriptBundler.Proofs.Bare
import ScriptBundler.Proofs.Leading

/-!
# Runs of operators and the trees they are grouped into

A tree of infix operators is spelled as a run of operands with operators between
them.  Grouping the run by the levels of its operators gives the tree back: the
stack of waiting operations holds what the right edge of the tree still lacks.
-/

namespace ScriptBundler
namespace Grammar

/-!
# The operands of a tree

The operands of a tree stand from left to right, with the operators between them.
-/

/-- The first operand of a tree of infix operators, and the others with the
operators in front of them. -/
def operands : Expr → Expr × List (BinaryOp × Expr)
  | .binary _ op left right =>
    ((operands left).1,
      (operands left).2 ++ (op, (operands right).1) :: (operands right).2)
  | e => (e, [])

/-- Trees of infix operators whose sides are at the levels asked of them, and
whose spans cover their sides. -/
def Leveled : Expr → Prop
  | .binary span op left right =>
    span = left.span.merge right.span ∧ op.leftLevel ≤ left.level ∧
      op.rightLevel ≤ right.level ∧ Leveled left ∧ Leveled right
  | _ => True

theorem yieldsTo_of_leftLevel_le {waiting next : BinaryOp} (h : next.leftLevel ≤ waiting.level) :
    yieldsTo waiting next = true := by
  unfold BinaryOp.leftLevel at h
  unfold yieldsTo
  split at h <;> rename_i hright
  · have hlt : next.level < waiting.level := h
    rw [decide_eq_true hlt, Bool.true_or]
  · rcases Nat.lt_or_eq_of_le h with hlt | heq
    · rw [decide_eq_true hlt, Bool.true_or]
    · rw [decide_eq_true heq.symm, Bool.eq_false_iff.mpr hright]
      simp

theorem not_yieldsTo_of_rightLevel_le {waiting next : BinaryOp}
    (h : waiting.rightLevel ≤ next.level) : yieldsTo waiting next = false := by
  have hnext := BinaryOp.rightAssoc_iff next
  have hwaiting := BinaryOp.rightAssoc_iff waiting
  unfold BinaryOp.rightLevel at h
  simp only [yieldsTo, Bool.or_eq_false_iff, Bool.and_eq_false_iff, decide_eq_false_iff_not,
    Bool.not_eq_false']
  split at h <;> rename_i hright
  · rw [hwaiting] at hright
    rw [hnext]
    omega
  · omega

theorem Accepts.mono {waiting : Pending} {level level' : Nat} (h : Accepts waiting level)
    (hle : level ≤ level') : Accepts waiting level' := by
  cases waiting with
  | nil => exact trivial
  | cons entry waiting => exact Nat.le_trans h hle

theorem settle_of_accepts {waiting : Pending} {op : BinaryOp} {e : Expr}
    (h : Accepts waiting op.level) : settle op waiting e = (waiting, e) := by
  cases waiting with
  | nil => rfl
  | cons entry waiting =>
    unfold settle
    rw [not_yieldsTo_of_rightLevel_le h, if_neg Bool.false_ne_true]

/-- Reading the operands of a tree leaves a stack that ends like the tree
itself, both at the next operator and at the end. -/
theorem groupFrom_operands {e : Expr} {waiting : Pending} (he : Leveled e)
    (haccepts : Accepts waiting e.level) :
    ∃ waiting' last, (∀ rest, groupFrom waiting (operands e).1 ((operands e).2 ++ rest) =
        groupFrom waiting' last rest) ∧
      finish waiting' last = finish waiting e ∧
      ∀ next, next.leftLevel ≤ e.level → settle next waiting' last = settle next waiting e := by
  fun_induction operands e generalizing waiting with
  | case1 span op left right ihLeft ihRight =>
    obtain ⟨rfl, hleft, hright, heleft, heright⟩ := he
    have hop : Accepts waiting op.level := haccepts
    obtain ⟨waiting₁, last₁, hread₁, _, hsettle₁⟩ := ihLeft heleft
      (hop.mono (Nat.le_trans (BinaryOp.level_le_leftLevel op) hleft))
    obtain ⟨waiting₂, last₂, hread₂, hfinish₂, hsettle₂⟩ :=
      @ihRight ((left, op) :: waiting) heright hright
    refine ⟨waiting₂, last₂, fun rest => ?_, hfinish₂, fun next hnext => ?_⟩
    · -- The operator finds the left side finished, since nothing that waits yields to it.
      rw [List.append_assoc, hread₁, List.cons_append]
      rw [groupFrom, hsettle₁ op hleft, settle_of_accepts hop]
      exact hread₂ rest
    · have hnext : next.leftLevel ≤ op.level := hnext
      rw [hsettle₂ next (Nat.le_trans hnext (Nat.le_trans (BinaryOp.level_le_rightLevel op) hright))]
      rw [settle, yieldsTo_of_leftLevel_le hnext, if_pos rfl]
      rfl
  | case2 e hbinary =>
    exact ⟨waiting, e, fun rest => rfl, rfl, fun _ _ => rfl⟩

theorem group_operands {e : Expr} (he : Leveled e) : group (operands e).1 (operands e).2 = e := by
  obtain ⟨waiting, last, hread, hfinish, _⟩ := @groupFrom_operands e [] he trivial
  have h := hread []
  rw [List.append_nil] at h
  exact h.trans hfinish

def bareEntry (entry : BinaryOp × Expr) : BinaryOp × Expr :=
  (entry.1, entry.2.bare)

def barePending (waiting : Pending) : Pending :=
  waiting.map fun entry => (entry.1.bare, entry.2)

theorem Expr.span_bare (e : Expr) : e.bare.span = .nowhere := by
  cases e <;> rfl

theorem operation_bare (left right : Expr) (op : BinaryOp) :
    (operation left op right).bare = operation left.bare op right.bare := by
  unfold operation
  rw [Expr.span_bare, Expr.span_bare]
  rfl

theorem settle_bare (next : BinaryOp) (waiting : Pending) (right : Expr) :
    settle next (barePending waiting) right.bare =
      (barePending (settle next waiting right).1, (settle next waiting right).2.bare) := by
  induction waiting generalizing right with
  | nil => rfl
  | cons entry waiting ih =>
    obtain ⟨left, op⟩ := entry
    change settle next ((left.bare, op) :: barePending waiting) right.bare = _
    unfold settle
    cases yieldsTo op next with
    | true =>
      rw [if_pos rfl, if_pos rfl, ← operation_bare]
      exact ih (operation left op right)
    | false => rfl

theorem finish_bare (waiting : Pending) (right : Expr) :
    finish (barePending waiting) right.bare = (finish waiting right).bare := by
  induction waiting generalizing right with
  | nil => rfl
  | cons entry waiting ih =>
    obtain ⟨left, op⟩ := entry
    change finish (barePending waiting) (operation left.bare op right.bare) = _
    rw [← operation_bare, ih]
    rfl

theorem groupFrom_bare (waiting : Pending) (last : Expr) (rest : List (BinaryOp × Expr)) :
    groupFrom (barePending waiting) last.bare (rest.map bareEntry) =
      (groupFrom waiting last rest).bare := by
  induction rest generalizing waiting last with
  | nil => exact finish_bare waiting last
  | cons entry rest ih =>
    obtain ⟨op, operand⟩ := entry
    change groupFrom (((settle op (barePending waiting) last.bare).2, op) ::
      (settle op (barePending waiting) last.bare).1) operand.bare (rest.map bareEntry) = _
    rw [settle_bare]
    exact ih (((settle op waiting last).2, op) :: (settle op waiting last).1) operand

theorem group_bare (first : Expr) (rest : List (BinaryOp × Expr)) :
    (group first rest).bare = group first.bare (rest.map bareEntry) :=
  (groupFrom_bare [] first rest).symm

theorem operands_bare (e : Expr) :
    operands e.bare = ((operands e).1.bare, (operands e).2.map bareEntry) := by
  fun_induction operands e with
  | case1 span op left right ihLeft ihRight =>
    simp only [Expr.bare, operands, ihLeft, ihRight, List.map_append, List.map_cons]
    rfl
  | case2 e hbinary =>
    cases e with
    | binary span op left right => exact absurd rfl (hbinary span op left right)
    | _ => rfl

theorem unary_le_level {e : Expr} (h : Level.conditional < e.level)
    (hbinary : ∀ span op left right, e = .binary span op left right → False) :
    Level.unary ≤ e.level := by
  cases e with
  | binary span op left right => exact absurd rfl (hbinary span op left right)
  | update _ _ leading _ => cases leading <;> simp only [Expr.level] <;> decide
  | sequence | assign | assignPattern | arrow | arrowBlock | yield | spread | conditional =>
    exact absurd h (by simp only [Expr.level]; decide)
  | _ =>
    simp only [Expr.level]
    decide

section
variable {rd : Reading} {cx : Context} {e : Expr} {i j : Nat}

theorem Derives.leveled (h : Spells rd (.expr cx e) i j) : Leveled e.bare := by
  fun_induction operands e generalizing i j with
  | case1 span op left right ihLeft ihRight =>
    cases h with
    | binary hleft hleftLevel _ _ hright hrightLevel =>
      refine ⟨?_, ?_, ?_, ihLeft hleft, ihRight hright⟩
      · rw [Expr.span_bare, Expr.span_bare]
        rfl
      · rw [Expr.level_bare]
        exact hleftLevel
      · rw [Expr.level_bare]
        exact hrightLevel
  | case2 e hbinary =>
    cases e with
    | binary span op left right => exact absurd rfl (hbinary span op left right)
    | _ => exact trivial

theorem Joined.append {rest more : List (BinaryOp × Expr)} {m : Nat}
    (h : Joined rd (Halts rd) cx rest i m) (hmore : Joined rd (Halts rd) cx more m j) :
    Joined rd (Halts rd) cx (rest ++ more) i j := by
  induction h with
  | nil => exact hmore
  | cons hread hop he hlevel _ ih => exact .cons hread hop he hlevel (ih hmore)

/-- A tree of infix operators is spelled as a run of its operands. -/
theorem Derives.joined (h : Spells rd (.expr cx e) i j) (hlevel : Level.conditional < e.level) :
    ∃ m, Spells rd (.expr cx (operands e).1) i m ∧ Level.unary ≤ (operands e).1.level ∧
      Joined rd (Halts rd) cx (operands e).2 m j := by
  fun_induction operands e generalizing i j with
  | case1 span op left right ihLeft ihRight =>
    cases h with
    | binary hleft hleftLevel hread hop hright hrightLevel =>
      have hbounds := BinaryOp.level_bounds op
      have hbelowLeft := BinaryOp.level_le_leftLevel op
      have hbelowRight := BinaryOp.level_le_rightLevel op
      obtain ⟨m, hfirst, hfirstLevel, hrest⟩ := ihLeft hleft (by change 4 < _; omega)
      obtain ⟨m', hfirst', hfirstLevel', hrest'⟩ := ihRight hright (by change 4 < _; omega)
      exact ⟨m, hfirst, hfirstLevel, hrest.append (.cons hread hop hfirst' hfirstLevel' hrest')⟩
  | case2 e hbinary =>
    exact ⟨j, h, unary_le_level hlevel hbinary, .nil⟩

end

end Grammar
end ScriptBundler
