import Mathlib.Data.Fintype.EquivFin
import Mathlib.Data.Fintype.Pigeonhole
import Mathlib.Data.List.Basic
import Mathlib.Data.List.Nodup
import Mathlib.Data.List.Perm.Basic
import Mathlib.Logic.Relation
import ScriptBundler.Proofs.Graph
import ScriptBundler.Proofs.Order

/-!
# Order around cycles

A module has no place in the order exactly when it lies on a cycle of
dependencies or behind one.  Such modules are put at the end in the order in
which they were found, so that between two of them the dependencies do not
count.
-/

namespace ScriptBundler

variable {g : Graph} {m d : Nat}

/-!
# Leftovers

A module that is left over waits for another one that is left over, so a cycle can
be reached from it.
-/

namespace Order

theorem mem_blocked {next : Nat} {waiting : List Waiting} {w : Waiting}
    (h : w ∈ blocked next waiting) : ∃ v ∈ waiting, v.without next = w ∧ w.missing ≠ [] := by
  rw [blocked, List.mem_filter, update, List.mem_map] at h
  rcases h with ⟨⟨v, hv, hw⟩, hready⟩
  refine ⟨v, hv, hw, ?_⟩
  intro hempty
  rw [Waiting.isReady, hempty] at hready
  cases hready

theorem exists_missing_of_mem_left (ready : List Nat) (waiting : List Waiting)
    (hwaits : ∀ w ∈ waiting, w.missing ≠ []) {position : Nat}
    (hleft : position ∈ (place ready waiting).2) :
    ∃ w ∈ waiting, w.position = position ∧ ∃ d ∈ w.missing, d ∉ (place ready waiting).1 := by
  induction ready, waiting using place.induct with
  | case1 waiting =>
    rw [place_nil, List.mem_map] at hleft
    rcases hleft with ⟨w, hw, hposition⟩
    rcases List.exists_mem_of_ne_nil _ (hwaits w hw) with ⟨d, hd⟩
    refine ⟨w, hw, hposition, d, hd, ?_⟩
    rw [place_nil]
    exact List.not_mem_nil
  | case2 next ready waiting placed left hplace ih =>
    rw [place_cons] at hleft ⊢
    have hblocked : ∀ w ∈ blocked next waiting, w.missing ≠ [] := by
      intro w hw
      rcases mem_blocked hw with ⟨_, _, _, hmissing⟩
      exact hmissing
    rcases ih hblocked hleft with ⟨w, hw, hposition, d, hd, hnot⟩
    rcases mem_blocked hw with ⟨v, hv, rfl, _⟩
    have hkept : d ∈ v.missing ∧ d ≠ next := by
      simpa [Waiting.without] using hd
    refine ⟨v, hv, hposition, d, hkept.1, ?_⟩
    rw [List.mem_cons]
    rintro (heq | hmem)
    · exact hkept.2 heq
    · exact hnot hmem

theorem left_sublist (ready : List Nat) (waiting : List Waiting) :
    (place ready waiting).2.Sublist (waiting.map Waiting.position) := by
  induction ready, waiting using place.induct with
  | case1 waiting => rw [place_nil]
  | case2 next ready waiting placed left hplace ih =>
    rw [place_cons]
    have hposition : (update next waiting).map Waiting.position =
        waiting.map Waiting.position := by
      simp [update, Function.comp_def, Waiting.without]
    rw [← hposition]
    exact ih.trans (List.filter_sublist.map _)

end Order

namespace Graph

def DependsOn (g : Graph) (m d : Nat) : Prop :=
  ∃ source, g.get? m = some source ∧ d ∈ source.dependencies

/-- A cycle of dependencies can be reached from the module at `m`. -/
def NearCycle (g : Graph) (m : Nat) : Prop :=
  ∃ c, Relation.ReflTransGen g.DependsOn m c ∧ Relation.TransGen g.DependsOn c c

theorem NearCycle.of_dependsOn (h : g.DependsOn m d) (hd : g.NearCycle d) : g.NearCycle m := by
  rcases hd with ⟨c, hreach, hcycle⟩
  exact ⟨c, .head h hreach, hcycle⟩

theorem lt_size_of_dependsOn (h : g.link.DependsOn m d) : m < g.size ∧ d < g.size := by
  rcases h with ⟨source, hsource, hd⟩
  constructor
  · have hlt := lt_size_of_get hsource
    rwa [size_link] at hlt
  · rcases mem_link (mem_of_get hsource) with ⟨_, _, _, _, hdependencies⟩
    rw [hdependencies, mem_dependenciesOf] at hd
    rcases hd with ⟨path, _, hposition⟩
    rcases get_of_positionOf hposition with ⟨target, htarget, _⟩
    exact lt_size_of_get htarget

/-- Where every member of a finite set has a successor in the set, a cycle can
be reached from every member. -/
theorem exists_cycle_of_successors {r : Nat → Nat → Prop} {positions : List Nat}
    (h : ∀ v ∈ positions, ∃ w ∈ positions, r v w) {v : Nat} (hv : v ∈ positions) :
    ∃ c, Relation.ReflTransGen r v c ∧ Relation.TransGen r c c := by
  choose! next hnext hedge using h
  have hmem : ∀ n, next^[n] v ∈ positions := by
    intro n
    induction n with
    | zero => exact hv
    | succ n ih =>
      rw [Function.iterate_succ_apply']
      exact hnext _ ih
  have hwalk : ∀ a n, Relation.ReflTransGen r (next^[a] v) (next^[a + n] v) := by
    intro a n
    induction n with
    | zero => exact .refl
    | succ n ih =>
      rw [← Nat.add_assoc, Function.iterate_succ_apply']
      exact ih.tail (hedge _ (hmem _))
  -- Some position comes twice on a walk that never leaves the list.
  obtain ⟨a, b, hne, heq⟩ := Finite.exists_ne_map_eq_of_infinite
    (fun n : Nat => (⟨next^[n] v, hmem n⟩ : {w // w ∈ positions}))
  have heq : next^[a] v = next^[b] v := congrArg Subtype.val heq
  have hcycle : ∀ a b, a < b → next^[a] v = next^[b] v →
      Relation.TransGen r (next^[a] v) (next^[a] v) := by
    intro a b hlt heq
    have hstep : r (next^[a] v) (next^[a + 1] v) := by
      rw [Function.iterate_succ_apply']
      exact hedge _ (hmem a)
    have hrest := hwalk (a + 1) (b - (a + 1))
    rw [Nat.add_sub_cancel' hlt, ← heq] at hrest
    exact .head' hstep hrest
  have hstart : Relation.ReflTransGen r v (next^[a] v) := by
    have hwalk := hwalk 0 a
    rwa [Nat.zero_add] at hwalk
  refine ⟨next^[a] v, hstart, ?_⟩
  rcases Nat.lt_or_gt_of_ne hne with hlt | hlt
  · exact hcycle a b hlt heq
  · rw [heq]
    exact hcycle b a hlt heq.symm

theorem sorted_perm (g : Graph) : (g.sorted.1 ++ g.sorted.2).Perm (List.range g.size) :=
  g.order_perm

theorem sorted_nodup (g : Graph) : (g.sorted.1 ++ g.sorted.2).Nodup :=
  g.sorted_perm.nodup_iff.mpr List.nodup_range

theorem mem_sorted_or_mem_left (hm : m < g.size) : m ∈ g.sorted.1 ∨ m ∈ g.sorted.2 := by
  rw [← List.mem_append, g.sorted_perm.mem_iff, List.mem_range]
  exact hm

theorem left_pairwise (g : Graph) : g.sorted.2.Pairwise (· < ·) := by
  have hsublist : g.sorted.2.Sublist (List.range g.size) := by
    rw [← map_position_waiting]
    exact (Order.left_sublist _ _).trans (List.filter_sublist.map _)
  exact List.pairwise_lt_range.sublist hsublist

theorem pair_sublist_sorted (hedge : g.DependsOn m d) (hm : m ∈ g.sorted.1) :
    [d, m].Sublist g.sorted.1 := by
  rcases hedge with ⟨source, hsource, hd⟩
  rcases List.append_of_mem hm with ⟨before, after, hsorted⟩
  have hbefore := sorted_respects hsource hsorted d hd
  rw [hsorted]
  exact (List.singleton_sublist.mpr hbefore).append (List.singleton_sublist.mpr List.mem_cons_self)

theorem mem_sorted_of_reaches (hm : m ∈ g.sorted.1) (h : Relation.ReflTransGen g.DependsOn m d) :
    d ∈ g.sorted.1 := by
  induction h with
  | refl => exact hm
  | tail _ hedge ih => exact (pair_sublist_sorted hedge ih).subset List.mem_cons_self

theorem idxOf_lt_of_pair_sublist {xs : List Nat} (hnodup : xs.Nodup) {a b : Nat}
    (h : [a, b].Sublist xs) : xs.idxOf a < xs.idxOf b := by
  induction xs with
  | nil => cases h
  | cons x xs ih =>
    rcases List.nodup_cons.mp hnodup with ⟨hx, hxs⟩
    have hne : ∀ {c}, c ∈ xs → x ≠ c := by
      rintro c hc rfl
      exact hx hc
    cases h with
    | cons _ h =>
      rw [List.idxOf_cons_ne _ (hne (h.subset List.mem_cons_self)),
        List.idxOf_cons_ne _ (hne (h.subset (List.mem_cons_of_mem _ List.mem_cons_self)))]
      exact Nat.succ_lt_succ (ih hxs h)
    | cons_cons _ h =>
      rw [List.idxOf_cons_eq _ rfl, List.idxOf_cons_ne _ (hne (h.subset List.mem_cons_self))]
      exact Nat.succ_pos _

theorem not_cycle_of_mem_sorted (hm : m ∈ g.sorted.1) : ¬ Relation.TransGen g.DependsOn m m := by
  have hnodup : g.sorted.1.Nodup := (List.nodup_append'.mp g.sorted_nodup).1
  have hpath : ∀ {d}, Relation.TransGen g.DependsOn m d →
      g.sorted.1.idxOf d < g.sorted.1.idxOf m := by
    intro d hd
    induction hd with
    | single hedge => exact idxOf_lt_of_pair_sublist hnodup (pair_sublist_sorted hedge hm)
    | tail hreach hedge ih =>
      have hc := mem_sorted_of_reaches hm hreach.to_reflTransGen
      exact Nat.lt_trans (idxOf_lt_of_pair_sublist hnodup (pair_sublist_sorted hedge hc)) ih
  intro hcycle
  exact Nat.lt_irrefl _ (hpath hcycle)

/-- A module has no place exactly when it lies on a cycle or behind one. -/
theorem mem_left_iff (hinside : ∀ {m d}, g.DependsOn m d → d < g.size) (hm : m < g.size) :
    m ∈ g.sorted.2 ↔ g.NearCycle m := by
  constructor
  · intro hleft
    refine exists_cycle_of_successors ?_ hleft
    intro v hv
    have hwaits : ∀ w ∈ g.waiting.filter (fun w => !w.isReady), w.missing ≠ [] := by
      intro w hw hempty
      rw [List.mem_filter, Waiting.isReady, hempty] at hw
      cases hw.2
    rcases Order.exists_missing_of_mem_left _ _ hwaits hv with ⟨w, hw, rfl, d, hd, hnot⟩
    have hedge : g.DependsOn w.position d := by
      rw [List.mem_filter, waiting, List.mem_map] at hw
      rcases hw with ⟨⟨⟨source, position⟩, hsource, rfl⟩, _⟩
      exact ⟨source, List.mem_zipIdx_iff_getElem?.mp hsource, hd⟩
    rcases mem_sorted_or_mem_left (hinside hedge) with hplaced | hleft
    · exact absurd hplaced hnot
    · exact ⟨d, hleft, hedge⟩
  · rintro ⟨c, hreach, hcycle⟩
    rcases mem_sorted_or_mem_left hm with hplaced | hleft
    · exact absurd hcycle (not_cycle_of_mem_sorted (mem_sorted_of_reaches hplaced hreach))
    · exact hleft

theorem mem_left_iff_nearCycle (hm : m < g.size) : m ∈ g.link.sorted.2 ↔ g.link.NearCycle m := by
  refine mem_left_iff (fun hedge => ?_) (by rwa [size_link])
  rw [size_link]
  exact (lt_size_of_dependsOn hedge).2

/-- Among modules without a place only the order in which they were found
counts. -/
theorem pair_sublist_left_iff (hm : m ∈ g.sorted.2) (hd : d ∈ g.sorted.2) :
    [d, m].Sublist (g.sorted.1 ++ g.sorted.2) ↔ d < m := by
  have hpair : ∀ {a b}, a ∈ g.sorted.2 → b ∈ g.sorted.2 → a < b →
      [a, b].Sublist (g.sorted.1 ++ g.sorted.2) := by
    intro a b ha hb hlt
    have hsorted := g.left_pairwise
    rcases List.append_of_mem ha with ⟨before, after, hsplit⟩
    rw [hsplit] at hb hsorted ⊢
    have hafter : b ∈ after := by
      rcases List.mem_append.mp hb with hbefore | hrest
      · have hba := (List.pairwise_append.mp hsorted).2.2 b hbefore a List.mem_cons_self
        omega
      · rcases List.mem_cons.mp hrest with heq | hmem
        · omega
        · exact hmem
    exact ((List.singleton_sublist.mpr hafter).cons_cons a).trans
      ((List.sublist_append_right before _).trans (List.sublist_append_right _ _))
  constructor
  · intro h
    have hindex := idxOf_lt_of_pair_sublist g.sorted_nodup h
    rcases Nat.lt_trichotomy d m with hlt | rfl | hgt
    · exact hlt
    · omega
    · have hswapped := idxOf_lt_of_pair_sublist g.sorted_nodup (hpair hm hd hgt)
      omega
  · exact hpair hd hm

/-- A module comes after one that it depends on exactly when no cycle can be
reached from the latter or the latter was found first. -/
theorem pair_sublist_order_iff (g : Graph) {m d : Nat} (hedge : g.link.DependsOn m d) :
    [d, m].Sublist g.link.order.order ↔ ¬ g.link.NearCycle d ∨ d < m := by
  have hbound := lt_size_of_dependsOn hedge
  rw [order_eq, ← mem_left_iff_nearCycle hbound.2]
  have hmem : ∀ {v}, v < g.size → v ∉ g.link.sorted.2 → v ∈ g.link.sorted.1 := by
    intro v hv hnot
    exact (mem_sorted_or_mem_left (by rwa [size_link])).resolve_right hnot
  by_cases hd : d ∈ g.link.sorted.2
  · have hm : m ∈ g.link.sorted.2 := by
      rw [mem_left_iff_nearCycle hbound.1]
      rw [mem_left_iff_nearCycle hbound.2] at hd
      exact hd.of_dependsOn hedge
    rw [pair_sublist_left_iff hm hd]
    constructor
    · exact Or.inr
    · rintro (hnot | hlt)
      · exact absurd hd hnot
      · exact hlt
  · constructor
    · intro _
      exact Or.inl hd
    · intro _
      have hdplaced := hmem hbound.2 hd
      by_cases hm : m ∈ g.link.sorted.2
      · exact (List.singleton_sublist.mpr hdplaced).append (List.singleton_sublist.mpr hm)
      · exact (pair_sublist_sorted hedge (hmem hbound.1 hm)).trans (List.sublist_append_left _ _)

def entryBehindCycle : Graph :=
  ⟨[.unlinked "index.js" "" ["a.js"] .script, .unlinked "a.js" "" ["b.js"] .script,
    .unlinked "b.js" "" ["a.js"] .script]⟩

/-- The entry only imports something on a cycle, and still comes before it. -/
theorem not_pair_sublist_order_entryBehindCycle :
    entryBehindCycle.link.DependsOn 0 1 ∧
      ¬ Relation.TransGen entryBehindCycle.link.DependsOn 1 0 ∧
      ¬ [1, 0].Sublist entryBehindCycle.link.order.order := by
  refine ⟨⟨_, rfl, by decide⟩, ?_, by decide +kernel⟩
  have hunused : ∀ m, ¬ entryBehindCycle.link.DependsOn m 0 := by
    rintro m ⟨source, hsource, hd⟩
    have hall : ∀ source ∈ entryBehindCycle.link.modules, 0 ∉ source.dependencies := by decide
    exact hall source (mem_of_get hsource) hd
  intro h
  cases h with
  | single hedge => exact hunused _ hedge
  | tail _ hedge => exact hunused _ hedge

theorem pair_sublist_order_iff_entry :
    entryBehindCycle.link.DependsOn 0 1 ∧
      ([1, 0].Sublist entryBehindCycle.link.order.order ↔
        ¬ entryBehindCycle.link.NearCycle 1 ∨ 1 < 0) :=
  ⟨⟨_, rfl, by decide⟩, pair_sublist_order_iff entryBehindCycle ⟨_, rfl, by decide⟩⟩

end Graph
end ScriptBundler
