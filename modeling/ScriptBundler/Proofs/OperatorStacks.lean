import ScriptBundler.Proofs.Grouping

/-!
# Operators are grouped by their levels

A run of operands with infix operators between them has exactly one tree in
which every operator binds as tightly as its level says.  This is the tree that
is read.  It is also what a machine with one stack of operands and one stack of
operators makes of the run, and the machine never lacks an operand.
-/

namespace ScriptBundler
namespace Grammar

open Grammar.Parser

variable {e : Expr} {rest : List (BinaryOp × Expr)} {op : BinaryOp}

/-!
# Two stacks

Operands and operators wait on a stack each.  An operator is taken off with its two
operands when the next operator does not go first.
-/

namespace OperatorStacks

def reduce? (op : BinaryOp) : List Expr → Option (List Expr)
  | right :: left :: others => some (operation left op right :: others)
  | _ => none

def settle? (next : BinaryOp) :
    List BinaryOp → List Expr → Option (List BinaryOp × List Expr)
  | [], stack => some ([], stack)
  | op :: ops, stack =>
      if yieldsTo op next then (reduce? op stack).bind (settle? next ops)
      else some (op :: ops, stack)

def finish? : List BinaryOp → List Expr → Option Expr
  | [], stack => stack.head?
  | op :: ops, stack => (reduce? op stack).bind (finish? ops)

/-- Go through the operators and the operands behind them.  There is no answer
if an operand is lacking anywhere. -/
def run? : List BinaryOp → List Expr → List (BinaryOp × Expr) → Option Expr
  | ops, stack, [] => finish? ops stack
  | ops, stack, (op, operand) :: rest =>
      (settle? op ops stack).bind fun (ops, stack) => run? (op :: ops) (operand :: stack) rest

def operators (waiting : Pending) : List BinaryOp :=
  waiting.map Prod.snd

def operandStack (waiting : Pending) (last : Expr) : List Expr :=
  last :: waiting.map Prod.fst

theorem settle?_eq (next : BinaryOp) (waiting : Pending) (last : Expr) :
    settle? next (operators waiting) (operandStack waiting last) =
      some (operators (settle next waiting last).1,
        operandStack (settle next waiting last).1 (settle next waiting last).2) := by
  induction waiting generalizing last with
  | nil => rfl
  | cons entry waiting ih =>
    rcases entry with ⟨left, op⟩
    change (if yieldsTo op next then
      settle? next (operators waiting) (operandStack waiting (operation left op last))
      else _) = _
    unfold settle
    cases yieldsTo op next with
    | true => exact ih (operation left op last)
    | false => rfl

theorem finish?_eq (waiting : Pending) (last : Expr) :
    finish? (operators waiting) (operandStack waiting last) = some (finish waiting last) := by
  induction waiting generalizing last with
  | nil => rfl
  | cons entry waiting ih => exact ih (operation entry.1 entry.2 last)

theorem run?_eq (waiting : Pending) (last : Expr) (rest : List (BinaryOp × Expr)) :
    run? (operators waiting) (operandStack waiting last) rest =
      some (groupFrom waiting last rest) := by
  induction rest generalizing waiting last with
  | nil => exact finish?_eq waiting last
  | cons entry rest ih =>
    rcases entry with ⟨op, operand⟩
    rw [run?, settle?_eq, Option.bind_some]
    exact ih (((settle op waiting last).2, op) :: (settle op waiting last).1) operand

/-- The machine always has the operands it needs. -/
theorem run?_group (first : Expr) (rest : List (BinaryOp × Expr)) :
    run? [] [first] rest = some (group first rest) :=
  run?_eq [] first rest

end OperatorStacks

/-!
# The run of a tree

The run of a tree are its operands with the operators between them.
-/

def extend (run : Expr × List (BinaryOp × Expr)) (more : List (BinaryOp × Expr)) :
    Expr × List (BinaryOp × Expr) :=
  (run.1, run.2 ++ more)

def isOperand : Expr → Bool
  | .binary _ _ _ _ => false
  | _ => true

theorem isOperand_of_level (h : Level.unary ≤ e.level) : isOperand e = true := by
  cases e with
  | binary _ op _ _ =>
    have hbounds := BinaryOp.level_bounds op
    have h : 16 ≤ op.level := h
    omega
  | _ => rfl

theorem operands_of_isOperand (h : isOperand e = true) : operands e = (e, []) := by
  cases e with
  | binary => cases h
  | _ => rfl

theorem operands_finish {waiting : Pending} {last last' : Expr} {more : List (BinaryOp × Expr)}
    (h : operands last' = extend (operands last) more) :
    operands (finish waiting last') = extend (operands (finish waiting last)) more := by
  induction waiting generalizing last last' with
  | nil => exact h
  | cons entry waiting ih =>
    apply ih
    simp only [operation, operands, h, extend, List.append_assoc, List.cons_append]

theorem finish_settle (next : BinaryOp) (waiting : Pending) (last : Expr) :
    finish (settle next waiting last).1 (settle next waiting last).2 = finish waiting last := by
  induction waiting generalizing last with
  | nil => rfl
  | cons entry waiting ih =>
    rcases entry with ⟨left, op⟩
    unfold settle
    cases yieldsTo op next with
    | true => exact ih (operation left op last)
    | false => rfl

theorem operands_groupFrom {waiting : Pending} {last : Expr}
    (hrest : ∀ entry ∈ rest, isOperand entry.2 = true) :
    operands (groupFrom waiting last rest) = extend (operands (finish waiting last)) rest := by
  induction rest generalizing waiting last with
  | nil =>
    rw [extend, List.append_nil]
    rfl
  | cons entry rest ih =>
    rcases entry with ⟨op, operand⟩
    have hoperand := operands_of_isOperand (hrest (op, operand) (List.mem_cons_self ..))
    have hlast : operands (operation (settle op waiting last).2 op operand) =
        extend (operands (settle op waiting last).2) [(op, operand)] := by
      simp only [operation, operands, hoperand, extend]
    have hfinish : operands (finish (settle op waiting last).1
        (operation (settle op waiting last).2 op operand)) =
        extend (operands (finish waiting last)) [(op, operand)] := by
      rw [operands_finish hlast, finish_settle]
    change operands (groupFrom (((settle op waiting last).2, op) :: (settle op waiting last).1)
      operand rest) = _
    rw [ih fun entry hentry => hrest entry (List.mem_cons_of_mem _ hentry), finish, hfinish,
      extend, extend, extend, List.append_assoc]
    rfl

theorem operands_group {first : Expr} (hfirst : isOperand first = true)
    (hrest : ∀ entry ∈ rest, isOperand entry.2 = true) :
    operands (group first rest) = (first, rest) := by
  rw [group, operands_groupFrom hrest, finish, operands_of_isOperand hfirst]
  rfl

/-!
# Trees grouped by levels

The sides of an operator bind as tightly as its level asks.
-/

def operator? : Expr → Option BinaryOp
  | .binary _ op _ _ => some op
  | _ => none

/-- Every operator binds as its level says: what stands on its left side binds
at least as tightly, and what stands on its right side more tightly.  For powers
the sides are exchanged. -/
def Grouped : Expr → Prop
  | .binary _ op left right =>
    (∀ inner ∈ operator? left,
      if op = .pow then op.level < inner.level else op.level ≤ inner.level) ∧
    (∀ inner ∈ operator? right,
      if op = .pow then op.level ≤ inner.level else op.level < inner.level) ∧
    Grouped left ∧ Grouped right
  | _ => True

def covering : Expr → Expr
  | .binary _ op left right => operation (covering left) op (covering right)
  | e => e

theorem rightAssoc_iff_eq_pow (op : BinaryOp) : op.rightAssoc = true ↔ op = .pow := by
  cases op <;> decide

theorem level_eq_of_operator? (h : operator? e = some op) : e.level = op.level := by
  cases e with
  | binary => cases h; rfl
  | _ => cases h

theorem leftLevel_le_iff (op inner : BinaryOp) : op.leftLevel ≤ inner.level ↔
    if op = .pow then op.level < inner.level else op.level ≤ inner.level := by
  simp only [BinaryOp.leftLevel, rightAssoc_iff_eq_pow]
  split <;> exact Iff.rfl

theorem rightLevel_le_iff (op inner : BinaryOp) : op.rightLevel ≤ inner.level ↔
    if op = .pow then op.level ≤ inner.level else op.level < inner.level := by
  simp only [BinaryOp.rightLevel, rightAssoc_iff_eq_pow]
  split <;> exact Iff.rfl

theorem Leveled.grouped (h : Leveled e) : Grouped e := by
  fun_induction Leveled e with
  | case1 span op left right ihLeft ihRight =>
    rcases h with ⟨-, hleft, hright, hgroupedLeft, hgroupedRight⟩
    refine ⟨?_, ?_, ihLeft hgroupedLeft, ihRight hgroupedRight⟩
    · intro inner hinner
      rw [level_eq_of_operator? hinner] at hleft
      exact (leftLevel_le_iff op inner).mp hleft
    · intro inner hinner
      rw [level_eq_of_operator? hinner] at hright
      exact (rightLevel_le_iff op inner).mp hright
  | case2 e hbinary =>
    cases e with
    | binary span op left right => exact absurd rfl (hbinary span op left right)
    | _ => exact trivial

/-- Waiting operations whose left sides are grouped, each of which takes the
next one as its right side. -/
def LeveledStack : Pending → Prop
  | [] => True
  | (left, op) :: waiting =>
    Leveled left ∧ op.leftLevel ≤ left.level ∧ Accepts waiting op.level ∧ LeveledStack waiting

section
variable {waiting : Pending} {left last : Expr} {op next : BinaryOp}

theorem LeveledStack.operation (h : LeveledStack ((left, op) :: waiting)) (hlast : Leveled last)
    (haccepts : Accepts ((left, op) :: waiting) last.level) :
    Leveled (operation left op last) ∧ Accepts waiting op.level ∧ LeveledStack waiting := by
  rcases h with ⟨hleft, hlevel, haccepts', hwaiting⟩
  exact ⟨⟨rfl, hlevel, haccepts, hleft, hlast⟩, haccepts', hwaiting⟩

theorem leveled_finish (h : LeveledStack waiting) (hlast : Leveled last)
    (haccepts : Accepts waiting last.level) : Leveled (finish waiting last) := by
  induction waiting generalizing last with
  | nil => exact hlast
  | cons entry waiting ih =>
    rcases h.operation hlast haccepts with ⟨hoperation, haccepts', hwaiting⟩
    exact ih hwaiting hoperation haccepts'

theorem leveledStack_settle (h : LeveledStack waiting) (hlast : Leveled last)
    (haccepts : Accepts waiting last.level) (hnext : next.leftLevel ≤ last.level) :
    LeveledStack (((settle next waiting last).2, next) :: (settle next waiting last).1) := by
  induction waiting generalizing last with
  | nil => exact ⟨hlast, hnext, trivial, trivial⟩
  | cons entry waiting ih =>
    rcases entry with ⟨left, op⟩
    unfold settle
    cases hyields : yieldsTo op next with
    | true =>
      rcases h.operation hlast haccepts with ⟨hoperation, haccepts', hwaiting⟩
      exact ih hwaiting hoperation haccepts' (leftLevel_le_of_yieldsTo hyields)
    | false => exact ⟨hlast, hnext, rightLevel_le_of_not_yieldsTo hyields, h⟩

theorem leveled_of_level (h : Level.unary ≤ last.level) : Leveled last := by
  have hoperand := isOperand_of_level h
  cases last with
  | binary => cases hoperand
  | _ => exact trivial

theorem leveled_groupFrom (h : LeveledStack waiting) (hlast : Level.unary ≤ last.level)
    (hrest : ∀ entry ∈ rest, Level.unary ≤ entry.2.level) :
    Leveled (groupFrom waiting last rest) := by
  induction rest generalizing waiting last with
  | nil => exact leveled_finish h (leveled_of_level hlast) (.of_unary hlast)
  | cons entry rest ih =>
    rcases entry with ⟨op, operand⟩
    have hstack : LeveledStack (((settle op waiting last).2, op) :: (settle op waiting last).1) :=
      leveledStack_settle h (leveled_of_level hlast) (.of_unary hlast)
        (Nat.le_trans (leftLevel_le_unary op) hlast)
    exact ih hstack (hrest (op, operand) (List.mem_cons_self ..))
      fun entry hentry => hrest entry (List.mem_cons_of_mem _ hentry)

end

/-!
# There is no other tree

A tree that is grouped by levels is the one that its run is grouped into.
-/

theorem operands_covering (e : Expr) : operands (covering e) = operands e := by
  fun_induction covering e with
  | case1 span op left right ihLeft ihRight =>
    simp only [operation, operands, ihLeft, ihRight]
  | case2 e hbinary => rfl

theorem level_covering (e : Expr) : (covering e).level = e.level := by
  cases e <;> rfl

theorem le_level_of_operator? {required : Nat} (hrequired : required ≤ Level.unary)
    (hoperand : isOperand e = true → Level.unary ≤ e.level)
    (h : ∀ inner ∈ operator? e, required ≤ inner.level) : required ≤ e.level := by
  cases hop : operator? e with
  | some inner =>
    rw [level_eq_of_operator? hop]
    exact h inner hop
  | none =>
    refine Nat.le_trans hrequired (hoperand ?_)
    cases e with
    | binary => cases hop
    | _ => rfl

theorem leveled_covering (h : Grouped e) (hfirst : Level.unary ≤ (operands e).1.level)
    (hothers : ∀ entry ∈ (operands e).2, Level.unary ≤ entry.2.level) : Leveled (covering e) := by
  have hoperand : ∀ e : Expr, Level.unary ≤ (operands e).1.level → isOperand e = true →
      Level.unary ≤ e.level := by
    intro e hlevel he
    rw [operands_of_isOperand he] at hlevel
    exact hlevel
  fun_induction covering e with
  | case1 span op left right ihLeft ihRight =>
    rcases h with ⟨hleft, hright, hgroupedLeft, hgroupedRight⟩
    rw [operands] at hothers
    have hmiddle : Level.unary ≤ (operands right).1.level :=
      hothers (op, (operands right).1) (List.mem_append_right _ (List.mem_cons_self ..))
    have hbefore : ∀ entry ∈ (operands left).2, Level.unary ≤ entry.2.level := by
      intro entry hentry
      exact hothers entry (List.mem_append_left _ hentry)
    have hbehind : ∀ entry ∈ (operands right).2, Level.unary ≤ entry.2.level := by
      intro entry hentry
      exact hothers entry (List.mem_append_right _ (List.mem_cons_of_mem _ hentry))
    refine ⟨rfl, ?_, ?_, ihLeft hgroupedLeft hfirst hbefore, ihRight hgroupedRight hmiddle hbehind⟩
    · rw [level_covering]
      apply le_level_of_operator? (leftLevel_le_unary op) (hoperand left hfirst)
      intro inner hinner
      exact (leftLevel_le_iff op inner).mpr (hleft inner hinner)
    · rw [level_covering]
      apply le_level_of_operator? (rightLevel_le_unary op) (hoperand right hmiddle)
      intro inner hinner
      exact (rightLevel_le_iff op inner).mpr (hright inner hinner)
  | case2 e hbinary =>
    cases e with
    | binary span op left right => exact absurd rfl (hbinary span op left right)
    | _ => exact trivial

/-- A tree that is grouped by levels is the tree of its run. -/
theorem Grouped.covering_eq {e first : Expr} (h : Grouped e) (hrun : operands e = (first, rest))
    (hfirst : Level.unary ≤ first.level) (hrest : ∀ entry ∈ rest, Level.unary ≤ entry.2.level) :
    covering e = group first rest := by
  have hleveled : Leveled (covering e) := by
    apply leveled_covering h
    · rw [hrun]
      exact hfirst
    · rw [hrun]
      exact hrest
  have hgroup := group_operands hleveled
  rw [operands_covering, hrun] at hgroup
  exact hgroup.symm

/-!
# Reading a run

What the parser collects is a run, and every run is collected.
-/

def joint? (r : Rules) (cx : Context) : Parser (Option (BinaryOp × Expr)) := do
  match binaryOp? cx (← peekKind) with
  | none => return none
  | some op =>
      let _ ← advance
      return some (op, ← unary r cx)

theorem binary_eq (r : Rules) (cx : Context) :
    binary r cx = unary r cx >>= fun first => collect (joint? r cx) >>= fun rest =>
      pure (group first rest) :=
  rfl

/-- Operators with operands behind them are read one after the other, up to a
token that is no operator. -/
inductive ReadsJoints (r : Rules) (cx : Context) (ts : Stream) :
    Progress → List (BinaryOp × Expr) → Progress → Prop
  | stop {s : Progress} : binaryOp? cx (ts.kindAt s.pos) = none → ReadsJoints r cx ts s [] s
  | more {s s₁ s₂ s' : Progress} {op : BinaryOp} {token : Token} {operand : Expr}
      {rest : List (BinaryOp × Expr)} : binaryOp? cx (ts.kindAt s.pos) = some op →
      advance ts s = .ok token s₁ → unary r cx ts s₁ = .ok operand s₂ →
      ReadsJoints r cx ts s₂ rest s' → ReadsJoints r cx ts s ((op, operand) :: rest) s'

def ReadsRun (r : Rules) (cx : Context) (ts : Stream) (s : Progress) (first : Expr)
    (rest : List (BinaryOp × Expr)) (s' : Progress) : Prop :=
  ∃ s₁, unary r cx ts s = .ok first s₁ ∧ ReadsJoints r cx ts s₁ rest s'

/-- States that stand in front of the end of the input. -/
structure Sane (ts : Stream) (s : Progress) : Prop where
  ended : ts.Ended
  inside : s.pos < ts.tokens.size

section
variable {ts : Stream} {cx : Context} {d : Nat} {s s' : Progress} {first : Expr}
  {rest : List (BinaryOp × Expr)}

theorem Sane.of_ok {α : Type} {p : Parser α} {Q : α → Nat → Prop} {a : α} (hs : Sane ts s)
    (h : Meets { ts.reading with origin := s.pos } p s.pos Q) (hp : p ts s = .ok a s') :
    Sane ts s' ∧ s.pos ≤ s'.pos ∧ Q a s'.pos := by
  have hat : Situated ts s.pos s.pos s := ⟨rfl, hs.inside, fun h => absurd h (Nat.lt_irrefl _)⟩
  obtain ⟨j, hle, hj, hQ⟩ := h.of_ok hat hp
  obtain rfl := hj.pos
  exact ⟨⟨hs.ended, hj.inside⟩, hle, hQ⟩

theorem ne_endOfInput_of_binaryOp? {k : Token.Kind} (h : binaryOp? cx k = some op) :
    k ≠ .endOfInput := by
  rintro rfl
  cases h

theorem unary_moves {e : Expr} (hs : Sane ts s) (hd : ts.tokens.size ≤ s.pos + d + 1)
    (h : unary (rules d) cx ts s = .ok e s') :
    Sane ts s' ∧ s.pos ≤ s'.pos ∧ Level.unary ≤ e.level := by
  have := hs.ended
  have hmoves := hs.of_ok (unary_sound (rules_sound d) hd) h
  exact ⟨hmoves.1, hmoves.2.1, hmoves.2.2.2.1⟩

theorem advance_moves {token : Token} (hs : Sane ts s)
    (hop : binaryOp? cx (ts.kindAt s.pos) = some op) (h : advance ts s = .ok token s') :
    Sane ts s' ∧ s.pos < s'.pos := by
  have := hs.ended
  have hmoves := hs.of_ok (Q := fun _ j => s.pos < j)
    (.tail (.advance (ne_endOfInput_of_binaryOp? hop) fun hlt => .pure hlt)) h
  exact ⟨hmoves.1, hmoves.2.2⟩

theorem ReadsJoints.bounds (h : ReadsJoints (rules d) cx ts s rest s') (hs : Sane ts s)
    (hd : ts.tokens.size ≤ s.pos + d + 1) : Sane ts s' ∧ s.pos + rest.length ≤ s'.pos ∧
      ∀ entry ∈ rest, Level.unary ≤ entry.2.level := by
  induction h with
  | stop => exact ⟨hs, Nat.le_refl _, nofun⟩
  | more hop hadvance hunary _ ih =>
    rcases advance_moves hs hop hadvance with ⟨hs₁, hlt⟩
    rcases unary_moves hs₁ (by omega) hunary with ⟨hs₂, hle, hlevel⟩
    rcases ih hs₂ (by omega) with ⟨hs', hbound, hlevels⟩
    refine ⟨hs', ?_, ?_⟩
    · rw [List.length_cons]
      omega
    · intro entry hentry
      rcases List.mem_cons.mp hentry with rfl | hentry
      · exact hlevel
      · exact hlevels entry hentry

theorem ReadsJoints.collectLoop {r : Rules} (h : ReadsJoints r cx ts s rest s')
    (done : List (BinaryOp × Expr)) {n : Nat} (hn : rest.length < n) :
    collectLoop (joint? r cx) done n ts s = .ok (done.reverse ++ rest) s' := by
  induction h generalizing done n with
  | @stop s hop =>
    cases n with
    | zero => cases hn
    | succ n =>
      have hjoint : joint? r cx ts s = .ok none s := by
        change (match binaryOp? cx (ts.kindAt s.pos) with
          | none => _
          | some op => _ : Parser _) ts s = _
        rw [hop]
        rfl
      change (joint? r cx >>= _) ts s = _
      simp only [Bind.bind, ReaderT.bind, EStateM.bind, hjoint, List.append_nil]
      rfl
  | @more s s₁ s₂ s' op token operand rest hop hadvance hunary _ ih =>
    cases n with
    | zero => cases hn
    | succ n =>
      have hjoint : joint? r cx ts s = .ok (some (op, operand)) s₂ := by
        change (match binaryOp? cx (ts.kindAt s.pos) with
          | none => _
          | some op => _ : Parser _) ts s = _
        rw [hop]
        simp only [Bind.bind, ReaderT.bind, EStateM.bind, hadvance, hunary]
        rfl
      have hloop := ih ((op, operand) :: done) (Nat.lt_of_succ_lt_succ hn)
      rw [List.reverse_cons, List.append_assoc] at hloop
      change (joint? r cx >>= _) ts s = _
      simp only [Bind.bind, ReaderT.bind, EStateM.bind, hjoint]
      exact hloop

theorem ReadsRun.binary (h : ReadsRun (rules d) cx ts s first rest s') (hs : Sane ts s)
    (hd : ts.tokens.size ≤ s.pos + d + 1) :
    binary (rules d) cx ts s = .ok (group first rest) s' := by
  rcases h with ⟨s₁, hfirst, hrest⟩
  rcases unary_moves hs hd hfirst with ⟨hs₁, hle, -⟩
  rcases hrest.bounds hs₁ (by omega) with ⟨hs', hbound, -⟩
  have hinside := hs'.inside
  have hcollect : collect (joint? (rules d) cx) ts s₁ = .ok rest s' :=
    hrest.collectLoop [] (by omega)
  rw [binary_eq]
  simp only [Bind.bind, ReaderT.bind, EStateM.bind, hfirst, hcollect]
  rfl

theorem readsJoints_of_collectLoop {r : Rules} {done out : List (BinaryOp × Expr)} {n : Nat}
    (h : collectLoop (joint? r cx) done n ts s = .ok out s') :
    ∃ rest, out = done.reverse ++ rest ∧ ReadsJoints r cx ts s rest s' := by
  induction n generalizing done s with
  | zero => cases h
  | succ n ih =>
    change (joint? r cx >>= _) ts s = _ at h
    have hjoint : joint? r cx ts s = (match binaryOp? cx (ts.kindAt s.pos) with
      | none => pure none
      | some op => do
          let _ ← advance
          return some (op, ← unary r cx) : Parser _) ts s := rfl
    simp only [Bind.bind, ReaderT.bind, EStateM.bind, hjoint] at h
    cases hop : binaryOp? cx (ts.kindAt s.pos) with
    | none =>
      rw [hop] at h
      cases h
      exact ⟨[], (List.append_nil _).symm, .stop hop⟩
    | some op =>
      simp only [hop, Bind.bind, ReaderT.bind, EStateM.bind] at h
      cases hadvance : advance ts s with
      | error => simp only [hadvance, reduceCtorEq] at h
      | ok token s₁ =>
        simp only [hadvance] at h
        cases hunary : unary r cx ts s₁ with
        | error => simp only [hunary, reduceCtorEq] at h
        | ok operand s₂ =>
          simp only [hunary] at h
          obtain ⟨rest, rfl, hrest⟩ := ih h
          exact ⟨(op, operand) :: rest, by simp, .more hop hadvance hunary hrest⟩

theorem binary_readsRun {r : Rules} {t : Expr} (h : binary r cx ts s = .ok t s') :
    ∃ first rest, ReadsRun r cx ts s first rest s' := by
  rw [binary_eq] at h
  simp only [Bind.bind, ReaderT.bind, EStateM.bind] at h
  cases hfirst : unary r cx ts s with
  | error => simp only [hfirst, reduceCtorEq] at h
  | ok first s₁ =>
    simp only [hfirst] at h
    cases hcollect : collect (joint? r cx) ts s₁ with
    | error => simp only [hcollect, reduceCtorEq] at h
    | ok rest s₂ =>
      simp only [hcollect] at h
      cases h
      obtain ⟨rest', _, hrest⟩ := readsJoints_of_collectLoop hcollect
      exact ⟨first, rest', s₁, hfirst, hrest⟩

theorem precedence?_of_binaryOp? {k : Token.Kind} (h : binaryOp? cx k = some op) :
    k.precedence? = some ⟨op.level, op.rightAssoc⟩ := by
  unfold binaryOp? at h
  split at h
  · cases h
  · unfold BinaryOp.ofKind? at h
    split at h
    all_goals cases h
    all_goals rfl

/-- Operands with infix operators between them are read as the one tree that
spells them in their order and in which every operator binds as tightly as the
table of precedences says.  The machine with two stacks makes the same tree of
them without ever lacking an operand. -/
theorem binary_groups_uniquely (hs : Sane ts s) (hd : ts.tokens.size ≤ s.pos + d + 1) :
    (∀ first rest s', ReadsRun (rules d) cx ts s first rest s' →
      ∃ t, binary (rules d) cx ts s = .ok t s' ∧ OperatorStacks.run? [] [first] rest = some t ∧
        operands t = (first, rest) ∧ Grouped t ∧
        ∀ t', operands t' = (first, rest) → Grouped t' → covering t' = t) ∧
    (∀ t s', binary (rules d) cx ts s = .ok t s' →
      ∃ first rest, ReadsRun (rules d) cx ts s first rest s') ∧
    ∀ k op, binaryOp? cx k = some op → k.precedence? = some ⟨op.level, op.rightAssoc⟩ := by
  refine ⟨?_, ?_, fun k op h => precedence?_of_binaryOp? h⟩
  · intro first rest s' hrun
    rcases hrun with ⟨s₁, hfirst, hrest⟩
    rcases unary_moves hs hd hfirst with ⟨hs₁, hle, hlevel⟩
    rcases hrest.bounds hs₁ (by omega) with ⟨-, -, hlevels⟩
    have hoperands : operands (group first rest) = (first, rest) :=
      operands_group (isOperand_of_level hlevel)
        fun entry hentry => isOperand_of_level (hlevels entry hentry)
    have hleveled : Leveled (group first rest) :=
      leveled_groupFrom trivial hlevel hlevels
    refine ⟨group first rest, ReadsRun.binary ⟨s₁, hfirst, hrest⟩ hs hd,
      OperatorStacks.run?_group first rest, hoperands, hleveled.grouped, ?_⟩
    intro t' hrun' hgrouped
    exact hgrouped.covering_eq hrun' hlevel hlevels
  · intro t s' ht
    exact binary_readsRun ht

end

/-- Powers group to the right and differences to the left. -/
theorem binary_groups_uniquely_powers :
    ∃ (ts : Stream) (t : Expr) (s' : Progress), Sane ts .start ∧
      binary (rules ts.tokens.size) .top ts .start = .ok t s' ∧
      Piece.render t.pieces = "a-b**c**d-e" ∧ ∃ first rest,
        ReadsRun (rules ts.tokens.size) .top ts .start first rest s' ∧ rest.length = 4 ∧
        operands t = (first, rest) ∧ Grouped t ∧
        ∀ t', operands t' = (first, rest) → Grouped t' → covering t' = t := by
  have hsane : Sane ⟨Token.lex "a - b ** c ** d - e;", true⟩ .start :=
    ⟨⟨by decide +kernel, by decide +kernel⟩, by decide +kernel⟩
  have hrun : (match binary (rules 19) .top ⟨Token.lex "a - b ** c ** d - e;", true⟩ .start with
      | .ok t _ => Piece.render t.pieces == "a-b**c**d-e" && (operands t).2.length == 4
      | .error _ _ => false) = true := by
    decide +kernel
  have hsize : (Token.lex "a - b ** c ** d - e;").size = 19 := by decide +kernel
  cases hbinary : binary (rules 19) .top ⟨Token.lex "a - b ** c ** d - e;", true⟩ .start with
  | error e s' =>
    rw [hbinary] at hrun
    cases hrun
  | ok t s' =>
    rw [hbinary, Bool.and_eq_true, beq_iff_eq, beq_iff_eq] at hrun
    refine ⟨_, t, s', hsane, ?_⟩
    rw [hsize]
    have hdepth : (Token.lex "a - b ** c ** d - e;").size ≤ 0 + 19 + 1 := by
      rw [hsize]
      decide
    rcases binary_groups_uniquely (d := 19) hsane hdepth with ⟨hgroups, hreads, -⟩
    rcases hreads t s' hbinary with ⟨first, rest, hread⟩
    rcases hgroups first rest s' hread with ⟨t', ht', -, hoperands, hgrouped, hunique⟩
    cases hbinary.symm.trans ht'
    rw [hoperands] at hrun
    exact ⟨hbinary, hrun.1, first, rest, hread, hrun.2, hoperands, hgrouped, hunique⟩

end Grammar
end ScriptBundler
