import Mathlib.Data.List.Basic
import Mathlib.Data.List.Perm.Basic
import Mathlib.Data.List.Nodup
import ScriptBundler.Bundle.Order

/-!
# Placing modules in order

Every module gets one place or is left over.  A module that is placed stands
behind everything it waited for, so the modules in front of any place need
nothing from behind it.
-/

namespace ScriptBundler
namespace Order

theorem place_nil (waiting : List Waiting) :
    place [] waiting = ([], waiting.map Waiting.position) := by
  rw [place]

def released (next : Nat) (waiting : List Waiting) : List Nat :=
  ((update next waiting).filter Waiting.isReady).map Waiting.position

def blocked (next : Nat) (waiting : List Waiting) : List Waiting :=
  (update next waiting).filter (fun w => !w.isReady)

theorem place_cons (next : Nat) (ready : List Nat) (waiting : List Waiting) :
    place (next :: ready) waiting =
      (next :: (place (ready ++ released next waiting) (blocked next waiting)).1,
        (place (ready ++ released next waiting) (blocked next waiting)).2) := by
  rw [place]
  rfl

theorem released_append_blocked_perm (next : Nat) (waiting : List Waiting) :
    (released next waiting ++ (blocked next waiting).map Waiting.position).Perm
      (waiting.map Waiting.position) := by
  have hposition : (update next waiting).map Waiting.position =
      waiting.map Waiting.position := by
    simp [update, Function.comp_def, Waiting.without]
  rw [← hposition, released, blocked, ← List.map_append]
  exact (List.filter_append_perm Waiting.isReady (update next waiting)).map _

/-!
# All steps

What lines up or waits is placed or left over, and stands behind all it waits for.
-/

theorem place_perm (ready : List Nat) (waiting : List Waiting) :
    ((place ready waiting).1 ++ (place ready waiting).2).Perm
      (ready ++ waiting.map Waiting.position) := by
  induction ready, waiting using place.induct with
  | case1 waiting =>
    rw [place_nil]
  | case2 next ready waiting placed left hplace ih =>
    rw [place_cons]
    refine .cons next (ih.trans ?_)
    rw [List.append_assoc]
    exact .append_left ready (released_append_blocked_perm next waiting)

/-- Before every placed module stand the modules that it waits for. -/
def Respects (waiting : List Waiting) (placed : List Nat) : Prop :=
  ∀ w ∈ waiting, ∀ before after, placed = before ++ w.position :: after →
    ∀ d ∈ w.missing, d ∈ before

/-- A module that waits is not next, so something stands before its place; what
it waits for is next or, by induction, further on. -/
theorem place_respects (ready : List Nat) (waiting : List Waiting)
    (hnodup : (ready ++ waiting.map Waiting.position).Nodup) :
    Respects waiting (place ready waiting).1 := by
  induction ready, waiting using place.induct with
  | case1 waiting =>
    intro w _ before after hplaced
    rw [place_nil] at hplaced
    cases before <;> cases hplaced
  | case2 next ready waiting placed left hplace ih =>
    intro w hw before after hplaced d hd
    rw [place_cons] at hplaced
    have hperm := released_append_blocked_perm next waiting
    have hrest : ((ready ++ released next waiting) ++
        (blocked next waiting).map Waiting.position).Nodup := by
      rw [List.append_assoc]
      exact (hperm.append_left ready).nodup_iff.mpr (List.nodup_cons.mp hnodup).2
    cases before with
    | nil =>
      have hhead : next = w.position := (List.cons.inj hplaced).1
      have hmem : next ∈ ready ++ waiting.map Waiting.position := by
        rw [hhead]
        exact List.mem_append_right _ (List.mem_map_of_mem hw)
      exact absurd hmem (List.nodup_cons.mp hnodup).1
    | cons first before =>
      rcases List.cons.inj hplaced with ⟨hfirst, htail⟩
      by_cases hnext : d = next
      · rw [hnext, hfirst]
        exact List.mem_cons_self
      · have hmissing : d ∈ (w.without next).missing := by
          simp [Waiting.without, hd, hnext]
        have hblocked : w.without next ∈ blocked next waiting := by
          have hnotReady : (w.without next).isReady = false := by
            rw [Waiting.isReady, List.isEmpty_eq_false_iff]
            exact List.ne_nil_of_mem hmissing
          rw [blocked, List.mem_filter]
          exact ⟨List.mem_map_of_mem hw, by rw [hnotReady]; rfl⟩
        exact List.mem_cons_of_mem _
          (ih hrest (w.without next) hblocked before after htail d hmissing)

end Order

namespace Graph

theorem map_position_waiting (g : Graph) : g.waiting.map Waiting.position = List.range g.size := by
  simp [waiting, Function.comp_def, size, List.range_eq_range', List.zipIdx_map_snd]

theorem order_perm (g : Graph) : g.order.order.Perm (List.range g.size) := by
  have hplace := Order.place_perm ((g.waiting.filter Waiting.isReady).map Waiting.position)
    (g.waiting.filter (fun w => !w.isReady))
  refine hplace.trans ?_
  rw [← List.map_append, ← map_position_waiting]
  exact (List.filter_append_perm Waiting.isReady g.waiting).map _

def sorted (g : Graph) : List Nat × List Nat :=
  Order.place ((g.waiting.filter Waiting.isReady).map Waiting.position)
    (g.waiting.filter (fun w => !w.isReady))

theorem order_eq (g : Graph) : g.order = ⟨g.sorted.1 ++ g.sorted.2, g.sorted.2⟩ :=
  rfl

theorem sorted_respects {g : Graph} {position : Nat} {m : Module}
    (hm : g.get? position = some m) {before after : List Nat}
    (hsorted : g.sorted.1 = before ++ position :: after) : ∀ d ∈ m.dependencies, d ∈ before := by
  intro d hd
  have hnodup : ((g.waiting.filter Waiting.isReady).map Waiting.position ++
      (g.waiting.filter (fun w => !w.isReady)).map Waiting.position).Nodup := by
    rw [← List.map_append]
    refine ((List.filter_append_perm Waiting.isReady g.waiting).map _).nodup_iff.mpr ?_
    rw [map_position_waiting]
    exact List.nodup_range
  have hwaiting : (⟨position, m.dependencies⟩ : Waiting) ∈
      g.waiting.filter (fun w => !w.isReady) := by
    rw [List.mem_filter]
    constructor
    · rw [waiting, List.mem_map]
      exact ⟨(m, position), List.mem_zipIdx_iff_getElem?.mpr hm, rfl⟩
    · cases hdeps : m.dependencies with
      | nil => rw [hdeps] at hd; cases hd
      | cons _ _ => rfl
  exact Order.place_respects _ _ hnodup _ hwaiting before after hsorted d hd

theorem order_respects {g : Graph} (hcyclic : g.order.cyclic = []) {position : Nat} {m : Module}
    (hm : g.get? position = some m) {before after : List Nat}
    (horder : g.order.order = before ++ position :: after) : ∀ d ∈ m.dependencies, d ∈ before := by
  have hleft : g.sorted.2 = [] := hcyclic
  rw [order_eq, hleft, List.append_nil] at horder
  exact sorted_respects hm horder

end Graph
end ScriptBundler
