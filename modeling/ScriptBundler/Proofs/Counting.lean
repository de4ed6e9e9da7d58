import Mathlib.Data.List.Basic
import Mathlib.Data.List.Nodup
import Mathlib.Data.List.Perm.Basic
import ScriptBundler.Proofs.Cycles
import ScriptBundler.Proofs.GraphRuns

/-!
# Counting what is missing

The order of a graph can be found by counting.  For every module there is the
number of dependencies that it waits for and the list of modules that wait for
it; a module that gets its place is counted off for those, and who is down to
nothing lines up.  Reading a number that is not there and counting below zero
are failures here.  Neither happens, and the order is the one in which modules
are placed.
-/

namespace ScriptBundler

variable {counts : List Nat} {w : Waiting} {d : Nat} {waiting : List Waiting}
  {g : Graph}

namespace Order

/-!
# The algorithm

Every module has a number, of how many dependencies it waits for, and a list of the
modules that wait for it.  It lines up when its number comes down to zero.
-/

/-- For every module how many dependencies it waits for, and who waits for it. -/
structure Tally where
  counts : List Nat
  followers : List (List Nat)
deriving DecidableEq, Repr

def Tally.enter (t : Tally) (edge : Nat × Nat) : Option Tally := do
  let followers ← t.followers[edge.2]?
  let count ← t.counts[edge.1]?
  return ⟨t.counts.set edge.1 (count + 1), t.followers.set edge.2 (followers ++ [edge.1])⟩

/-- Count one off for each of some modules.  Gives the new counts and the
modules that wait for nothing any more. -/
def countDown : List Nat → List Nat → Option (List Nat × List Nat)
  | counts, [] => some (counts, [])
  | counts, next :: rest =>
    match counts[next]? with
    | some (count + 1) =>
      (countDown (counts.set next count) rest).map fun (counts', ready) =>
        (counts', if count = 0 then next :: ready else ready)
    | _ => none

def total : List Nat → Nat
  | [] => 0
  | count :: counts => count + total counts

theorem total_set_add_one {i count : Nat} (h : counts[i]? = some (count + 1)) :
    total (counts.set i count) + 1 = total counts := by
  induction counts generalizing i with
  | nil => cases h
  | cons first counts ih =>
    cases i with
    | zero =>
      rw [List.getElem?_cons_zero, Option.some.injEq] at h
      rw [List.set_cons_zero, total, total, h]
      omega
    | succ i =>
      have hrest := ih h
      rw [List.set_cons_succ, total, total]
      omega

theorem total_le_of_countDown {counts nexts counts' ready : List Nat}
    (h : countDown counts nexts = some (counts', ready)) :
    total counts' + ready.length ≤ total counts := by
  induction nexts generalizing counts counts' ready with
  | nil =>
    cases h
    exact Nat.le_refl _
  | cons next rest ih =>
    rw [countDown] at h
    split at h
    · rename_i count hcount
      rw [Option.map_eq_some_iff] at h
      rcases h with ⟨⟨counts₁, ready₁⟩, hrest, heq⟩
      have hle := ih hrest
      have hsum := total_set_add_one hcount
      cases heq
      split
      · rw [List.length_cons]
        omega
      · omega
    · cases h

def drain (followers : List (List Nat)) (counts : List Nat) : List Nat → Option (List Nat)
  | [] => some []
  | next :: queue =>
    match followers[next]? with
    | none => none
    | some nexts =>
      match _hdown : countDown counts nexts with
      | none => none
      | some (counts', ready) => (drain followers counts' (queue ++ ready)).map (next :: ·)
termination_by queue => total counts + queue.length
decreasing_by
  have hle := total_le_of_countDown _hdown
  simp only [List.length_append, List.length_cons]
  omega

end Order

namespace Graph

def edges (g : Graph) : List (Nat × Nat) :=
  g.waiting.flatMap fun w => w.missing.map fun d => (w.position, d)

def countedOrder? (g : Graph) : Option Order := do
  let tally ← g.edges.foldlM Order.Tally.enter ⟨.replicate g.size 0, .replicate g.size []⟩
  let lined := (List.range g.size).filter fun i => tally.counts[i]? == some 0
  let placed ← Order.drain tally.followers tally.counts lined
  let left := (List.range g.size).filter fun i => !placed.contains i
  return ⟨placed ++ left, left⟩

end Graph

namespace Order

theorem length_missing_without (honce : w.missing.Nodup) (hd : d ∈ w.missing) :
    (w.without d).missing.length + 1 = w.missing.length := by
  have herase := List.length_erase_of_mem hd
  have hpos := List.length_pos_of_mem hd
  rw [honce.erase_eq_filter] at herase
  rw [Waiting.without, herase]
  omega

theorem without_of_notMem (hd : d ∉ w.missing) : w.without d = w := by
  rw [Waiting.without, List.filter_eq_self.mpr]
  intro e he
  rw [bne_iff_ne]
  rintro rfl
  exact hd he

/-- Counts of modules that wait, each once and for something. -/
structure Tracks (counts : List Nat) (waiting : List Waiting) : Prop where
  count : ∀ w ∈ waiting, counts[w.position]? = some w.missing.length
  once : ∀ w ∈ waiting, w.missing.Nodup
  waits : ∀ w ∈ waiting, w.missing ≠ []

theorem Tracks.tail (h : Tracks counts (w :: waiting)) : Tracks counts waiting :=
  ⟨fun v hv => h.count v (List.mem_cons_of_mem _ hv),
    fun v hv => h.once v (List.mem_cons_of_mem _ hv),
    fun v hv => h.waits v (List.mem_cons_of_mem _ hv)⟩

def followersOf (d : Nat) (waiting : List Waiting) : List Nat :=
  (waiting.filter fun w => w.missing.contains d).map Waiting.position

theorem followersOf_cons_of_mem (hd : d ∈ w.missing) :
    followersOf d (w :: waiting) = w.position :: followersOf d waiting := by
  simp [followersOf, hd]

theorem followersOf_cons_of_notMem (hd : d ∉ w.missing) :
    followersOf d (w :: waiting) = followersOf d waiting := by
  simp [followersOf, hd]

theorem released_cons (d : Nat) (w : Waiting) (waiting : List Waiting) :
    released d (w :: waiting) = if (w.without d).missing.length = 0
      then w.position :: released d waiting else released d waiting := by
  have hready : (w.without d).isReady = true ↔ (w.without d).missing.length = 0 := by
    rw [Waiting.isReady, List.isEmpty_iff_length_eq_zero]
  simp only [released, update, List.map_cons, List.filter_cons, hready]
  split <;> rfl

theorem isReady_eq_false_of_mem (h : d ∈ w.missing) : w.isReady = false := by
  rw [Waiting.isReady, List.isEmpty_eq_false_iff]
  exact List.ne_nil_of_mem h

/-- Counting off the modules that wait for one leaves the counts of what they
miss without it, and gives the ones that are released. -/
theorem countDown_followersOf (htracks : Tracks counts waiting)
    (hnodup : (waiting.map Waiting.position).Nodup) (d : Nat) :
    ∃ counts', countDown counts (followersOf d waiting) = some (counts', released d waiting) ∧
      (∀ w ∈ waiting, counts'[w.position]? = some (w.without d).missing.length) ∧
      ∀ i, i ∉ waiting.map Waiting.position → counts'[i]? = counts[i]? := by
  induction waiting generalizing counts with
  | nil => exact ⟨counts, rfl, nofun, fun _ _ => rfl⟩
  | cons w waiting ih =>
    rw [List.map_cons, List.nodup_cons] at hnodup
    have hcount := htracks.count w List.mem_cons_self
    by_cases hd : d ∈ w.missing
    · have hlength := length_missing_without (htracks.once w List.mem_cons_self) hd
      rw [← hlength] at hcount
      have hset : ∀ i ∈ waiting.map Waiting.position,
          (counts.set w.position (w.without d).missing.length)[i]? = counts[i]? := by
        intro i hi
        rw [List.getElem?_set_ne]
        rintro rfl
        exact hnodup.1 hi
      have htracks' : Tracks (counts.set w.position (w.without d).missing.length) waiting := by
        refine ⟨fun v hv => ?_, htracks.tail.once, htracks.tail.waits⟩
        rw [hset _ (List.mem_map_of_mem hv)]
        exact htracks.tail.count v hv
      rcases ih htracks' hnodup.2 with ⟨counts', hdown, hcounts, hother⟩
      have hhere : counts'[w.position]? = some (w.without d).missing.length := by
        rw [hother _ hnodup.1, List.getElem?_set_self (List.getElem?_eq_some_iff.mp hcount).1]
      refine ⟨counts', ?_, ?_, ?_⟩
      · rw [followersOf_cons_of_mem hd, countDown, hcount]
        dsimp only
        rw [hdown, Option.map_some, released_cons]
      · intro v hv
        rcases List.mem_cons.mp hv with rfl | hv
        · exact hhere
        · exact hcounts v hv
      · intro i hi
        rw [List.map_cons, List.mem_cons, not_or] at hi
        rw [hother i hi.2, List.getElem?_set_ne (Ne.symm hi.1)]
    · rcases ih htracks.tail hnodup.2 with ⟨counts', hdown, hcounts, hother⟩
      have hsame := without_of_notMem hd
      have hwaits : (w.without d).missing.length ≠ 0 := by
        rw [hsame]
        exact fun h => htracks.waits w List.mem_cons_self (List.length_eq_zero_iff.mp h)
      refine ⟨counts', ?_, ?_, ?_⟩
      · rw [followersOf_cons_of_notMem hd, hdown, released_cons, if_neg hwaits]
      · intro v hv
        rcases List.mem_cons.mp hv with rfl | hv
        · rw [hother _ hnodup.1, hsame, hcount]
        · exact hcounts v hv
      · intro i hi
        rw [List.map_cons, List.mem_cons, not_or] at hi
        exact hother i hi.2

theorem followersOf_blocked {next d : Nat} (hne : d ≠ next) (waiting : List Waiting) :
    followersOf d (blocked next waiting) = followersOf d waiting := by
  have hmem : ∀ w : Waiting, d ∈ (w.without next).missing ↔ d ∈ w.missing := by
    intro w
    simp [Waiting.without, hne]
  induction waiting with
  | nil => rfl
  | cons w waiting ih =>
    have hblocked : blocked next (w :: waiting) = if (w.without next).isReady
        then blocked next waiting else w.without next :: blocked next waiting := by
      simp only [blocked, update, List.map_cons, List.filter_cons]
      cases (w.without next).isReady <;> rfl
    rw [hblocked]
    by_cases hd : d ∈ w.missing
    · have hd' := (hmem w).mpr hd
      rw [isReady_eq_false_of_mem hd', if_neg Bool.false_ne_true, followersOf_cons_of_mem hd',
        followersOf_cons_of_mem hd, ih]
      rfl
    · rw [followersOf_cons_of_notMem hd]
      split
      · exact ih
      · rw [followersOf_cons_of_notMem (fun h => hd ((hmem w).mp h)), ih]

/-- Draining by counts places the modules that `place` does. -/
theorem drain_eq_place {followers : List (List Nat)} (ready : List Nat) (waiting : List Waiting)
    (hnodup : (ready ++ waiting.map Waiting.position).Nodup)
    (hfollowers : ∀ d ∈ ready ++ waiting.map Waiting.position,
      followers[d]? = some (followersOf d waiting))
    (htracks : Tracks counts waiting) :
    drain followers counts ready = some (place ready waiting).1 := by
  induction ready, waiting using place.induct generalizing counts with
  | case1 waiting => rw [drain, place_nil]
  | case2 next ready waiting placed left hplace ih =>
    rw [List.cons_append, List.nodup_cons] at hnodup
    have hperm := released_append_blocked_perm next waiting
    have hrest : ((ready ++ released next waiting) ++
        (blocked next waiting).map Waiting.position).Perm
          (ready ++ waiting.map Waiting.position) := by
      rw [List.append_assoc]
      exact .append_left ready hperm
    rcases countDown_followersOf htracks (List.nodup_append'.mp hnodup.2).2.1 next with
      ⟨counts', hdown, hcounts, _⟩
    have hdrain := @ih counts' (hrest.nodup_iff.mpr hnodup.2) ?_ ?_
    · rw [drain, hfollowers next (List.mem_append_left _ List.mem_cons_self)]
      dsimp only
      split
      · rename_i hnone
        rw [hdown] at hnone
        cases hnone
      · rename_i counts₁ ready₁ hsome
        rw [hdown] at hsome
        cases hsome
        rw [place_cons]
        exact congrArg (Option.map (next :: ·)) hdrain
    · intro d hd
      have hmem : d ∈ ready ++ waiting.map Waiting.position := hrest.mem_iff.mp hd
      have hne : d ≠ next := by
        rintro rfl
        exact hnodup.1 hmem
      rw [hfollowers d (List.mem_cons_of_mem _ hmem)]
      exact congrArg some (followersOf_blocked hne waiting).symm
    · constructor
      · intro w hw
        rcases mem_blocked hw with ⟨v, hv, rfl, _⟩
        exact hcounts v hv
      · intro w hw
        rcases mem_blocked hw with ⟨v, hv, rfl, _⟩
        exact (htracks.once v hv).filter _
      · intro w hw
        rcases mem_blocked hw with ⟨_, _, _, hmissing⟩
        exact hmissing

theorem foldlM_enter {edges : List (Nat × Nat)} {t : Tally}
    (hcounts : ∀ edge ∈ edges, edge.1 < t.counts.length)
    (hfollowers : ∀ edge ∈ edges, edge.2 < t.followers.length) :
    ∃ t', edges.foldlM Tally.enter t = some t' ∧
      (∀ i, t'.counts[i]? =
        t.counts[i]?.map (· + (edges.filter fun edge => edge.1 == i).length)) ∧
      ∀ d, t'.followers[d]? =
        t.followers[d]?.map (· ++ (edges.filter fun edge => edge.2 == d).map Prod.fst) := by
  induction edges generalizing t with
  | nil => exact ⟨t, rfl, by simp, by simp⟩
  | cons edge edges ih =>
    have hcount := hcounts edge List.mem_cons_self
    have hfollower := hfollowers edge List.mem_cons_self
    let t₁ : Tally := ⟨t.counts.set edge.1 (t.counts[edge.1] + 1),
      t.followers.set edge.2 (t.followers[edge.2] ++ [edge.1])⟩
    have henter : t.enter edge = some t₁ := by
      simp [t₁, Tally.enter, List.getElem?_eq_getElem hcount, List.getElem?_eq_getElem hfollower]
    rw [List.foldlM_cons, henter]
    rcases @ih t₁ (fun e he => by simpa [t₁] using hcounts e (List.mem_cons_of_mem _ he))
      (fun e he => by simpa [t₁] using hfollowers e (List.mem_cons_of_mem _ he)) with
      ⟨t', hfold, hcounts', hfollowers'⟩
    refine ⟨t', hfold, fun i => ?_, fun d => ?_⟩
    · rw [hcounts' i]
      by_cases hi : edge.1 = i
      · subst hi
        simp [t₁, hcount, Nat.add_assoc, Nat.add_comm 1]
      · simp [t₁, List.getElem?_set_ne hi, hi]
    · rw [hfollowers' d]
      by_cases hd : edge.2 = d
      · subst hd
        simp [t₁, hfollower]
      · simp [t₁, List.getElem?_set_ne hd, hd]

theorem edges_to (honce : ∀ w ∈ waiting, w.missing.Nodup) (d : Nat) :
    ((waiting.flatMap fun w => w.missing.map fun d => (w.position, d)).filter
      fun edge => edge.2 == d).map Prod.fst = followersOf d waiting := by
  induction waiting with
  | nil => rfl
  | cons w waiting ih =>
    rw [List.flatMap_cons, List.filter_append, List.map_append,
      ih fun v hv => honce v (List.mem_cons_of_mem _ hv)]
    have hhere : ((w.missing.map fun d => (w.position, d)).filter
        fun edge => edge.2 == d).map Prod.fst = (w.missing.filter (· == d)).map
          fun _ => w.position := by
      simp [List.filter_map, Function.comp_def]
    rw [hhere]
    by_cases hd : d ∈ w.missing
    · rw [followersOf_cons_of_mem hd, List.filter_beq,
        List.count_eq_one_of_mem (honce w List.mem_cons_self) hd]
      rfl
    · rw [followersOf_cons_of_notMem hd, List.filter_beq, List.count_eq_zero_of_not_mem hd]
      rfl

theorem length_edges_from (hw : w ∈ waiting) (hnodup : (waiting.map Waiting.position).Nodup) :
    ((waiting.flatMap fun w => w.missing.map fun d => (w.position, d)).filter
      fun edge => edge.1 == w.position).length = w.missing.length := by
  have hnone : ∀ vs : List Waiting, w.position ∉ vs.map Waiting.position →
      ((vs.flatMap fun w => w.missing.map fun d => (w.position, d)).filter
        fun edge => edge.1 == w.position) = [] := by
    intro vs hvs
    rw [List.filter_eq_nil_iff]
    intro edge hedge
    simp only [List.mem_flatMap, List.mem_map] at hedge
    rcases hedge with ⟨v, hv, d, _, rfl⟩
    rw [beq_iff_eq]
    intro heq
    exact hvs (heq ▸ List.mem_map_of_mem hv)
  induction waiting with
  | nil => cases hw
  | cons v waiting ih =>
    rw [List.map_cons, List.nodup_cons] at hnodup
    rw [List.flatMap_cons, List.filter_append, List.length_append]
    rcases List.mem_cons.mp hw with rfl | hw
    · rw [hnone waiting hnodup.1]
      simp [List.filter_map, Function.comp_def]
    · have hne : v.position ≠ w.position := by
        intro heq
        exact hnodup.1 (heq ▸ List.mem_map_of_mem hw)
      rw [ih hw hnodup.2]
      simp [List.filter_map, Function.comp_def, hne]

end Order

namespace Graph

theorem waiting_cases (hw : w ∈ g.waiting) :
    ∃ m, g.get? w.position = some m ∧ w.missing = m.dependencies := by
  rw [waiting, List.mem_map] at hw
  rcases hw with ⟨⟨m, position⟩, hm, rfl⟩
  exact ⟨m, List.mem_zipIdx_iff_getElem?.mp hm, rfl⟩

theorem nodup_waiting (g : Graph) : (g.waiting.map Waiting.position).Nodup := by
  rw [map_position_waiting]
  exact List.nodup_range

theorem Regular.once_waiting (hg : g.Regular) (hw : w ∈ g.waiting) : w.missing.Nodup := by
  rcases waiting_cases hw with ⟨m, hm, hmissing⟩
  rw [hmissing]
  exact hg.once m (mem_of_get hm)

/-- The tally of a regular graph says of every module how many dependencies it
has and which modules depend on it. -/
theorem Regular.exists_tally (hg : g.Regular) :
    ∃ tally, g.edges.foldlM Order.Tally.enter ⟨.replicate g.size 0, .replicate g.size []⟩ =
        some tally ∧
      (∀ w ∈ g.waiting, tally.counts[w.position]? = some w.missing.length) ∧
      ∀ d < g.size, tally.followers[d]? = some (Order.followersOf d g.waiting) := by
  have hedges : ∀ edge ∈ g.edges, edge.1 < g.size ∧ edge.2 < g.size := by
    intro edge hedge
    simp only [edges, List.mem_flatMap, List.mem_map] at hedge
    rcases hedge with ⟨w, hw, d, hd, rfl⟩
    rcases waiting_cases hw with ⟨m, hm, hmissing⟩
    rw [hmissing] at hd
    exact ⟨lt_size_of_get hm, hg.inside m (mem_of_get hm) d hd⟩
  rcases @Order.foldlM_enter g.edges ⟨.replicate g.size 0, .replicate g.size []⟩
    (fun edge hedge => by simpa using (hedges edge hedge).1)
    (fun edge hedge => by simpa using (hedges edge hedge).2) with
    ⟨tally, htally, hcounts, hfollowers⟩
  refine ⟨tally, htally, ?_, ?_⟩
  · intro w hw
    have hlt : w.position < g.size := by
      rw [← List.mem_range, ← map_position_waiting]
      exact List.mem_map_of_mem hw
    rw [hcounts, edges, Order.length_edges_from hw g.nodup_waiting]
    simp [hlt]
  · intro d hd
    rw [hfollowers, edges, Order.edges_to fun w hw => hg.once_waiting hw]
    simp [hd]

theorem filter_notMem_sorted (g : Graph) :
    (List.range g.size).filter (fun i => !g.sorted.1.contains i) = g.sorted.2 := by
  have hsorted := (List.pairwise_lt_range (n := g.size)).filter fun i => !g.sorted.1.contains i
  refine List.Perm.eq_of_pairwise (fun a b _ _ hab hba => by omega) hsorted g.left_pairwise ?_
  have hnodup := List.nodup_append'.mp g.sorted_nodup
  rw [List.perm_ext_iff_of_nodup (List.nodup_range.filter _) hnodup.2.1]
  intro i
  rw [List.mem_filter, ← g.sorted_perm.mem_iff, List.mem_append]
  simp only [Bool.not_eq_true', List.contains_eq_mem, decide_eq_false_iff_not]
  constructor
  · rintro ⟨hplaced | hleft, hnot⟩
    · exact absurd hplaced hnot
    · exact hleft
  · intro hleft
    exact ⟨.inr hleft, fun hplaced => hnodup.2.2 hplaced hleft⟩

/-- A regular graph is ordered by counting, without counting below zero and
without reading a number that is not there. -/
theorem Regular.countedOrder_eq (hg : g.Regular) : g.countedOrder? = some g.order := by
  rcases hg.exists_tally with ⟨tally, htally, hcounts, hfollowers⟩
  have hlined : (List.range g.size).filter (fun i => tally.counts[i]? == some 0) =
      (g.waiting.filter Waiting.isReady).map Waiting.position := by
    rw [← map_position_waiting, List.filter_map]
    congr 1
    refine List.filter_congr fun w hw => ?_
    rw [Function.comp_apply, hcounts w hw, Waiting.isReady]
    cases w.missing <;> rfl
  have hperm : ((g.waiting.filter Waiting.isReady).map Waiting.position ++
      (g.waiting.filter (fun w => !w.isReady)).map Waiting.position).Perm
        (List.range g.size) := by
    rw [← List.map_append, ← map_position_waiting]
    exact (List.filter_append_perm Waiting.isReady g.waiting).map _
  have hplaced : Order.drain tally.followers tally.counts
      ((g.waiting.filter Waiting.isReady).map Waiting.position) = some g.sorted.1 := by
    refine Order.drain_eq_place _ _ (hperm.nodup_iff.mpr List.nodup_range) ?_ ?_
    · intro d hd
      rw [hfollowers d (List.mem_range.mp (hperm.mem_iff.mp hd)), Order.followersOf,
        Order.followersOf, List.filter_filter]
      congr 2
      refine List.filter_congr fun w _ => ?_
      cases hmem : w.missing.contains d with
      | false => rfl
      | true => rw [Order.isReady_eq_false_of_mem (List.contains_iff_mem.mp hmem)]; rfl
    · constructor
      · exact fun w hw => hcounts w (List.mem_filter.mp hw).1
      · exact fun w hw => hg.once_waiting (List.mem_filter.mp hw).1
      · intro w hw hempty
        rw [List.mem_filter, Waiting.isReady, hempty] at hw
        cases hw.2
  rw [countedOrder?, htally]
  simp only [Option.bind_eq_bind, Option.bind_some]
  rw [hlined, hplaced, Option.bind_some, filter_notMem_sorted]
  rfl

theorem Regular.lt_size_of_dependsOn (hg : g.Regular) {m d : Nat} (h : g.DependsOn m d) :
    d < g.size := by
  rcases h with ⟨source, hsource, hd⟩
  exact hg.inside source (mem_of_get hsource) d hd

theorem NearCycle.lt_size {m : Nat} (h : g.NearCycle m) : m < g.size := by
  have hedge : ∃ d, g.DependsOn m d := by
    rcases h with ⟨c, hreach, hcycle⟩
    rcases hreach.cases_head with rfl | ⟨d, hedge, _⟩
    · rcases Relation.TransGen.head'_iff.mp hcycle with ⟨d, hedge, _⟩
      exact ⟨d, hedge⟩
    · exact ⟨d, hedge⟩
  rcases hedge with ⟨_, source, hsource, _⟩
  exact lt_size_of_get hsource

/-- Every module has one place in an order.  Those from which a cycle can be
reached come last, in the order in which they were found, and every other module
comes after all that it depends on. -/
structure Sorts (g : Graph) (o : Order) : Prop where
  perm : o.order.Perm (List.range g.size)
  cyclic_increasing : o.cyclic.Pairwise (· < ·)
  mem_cyclic_iff : ∀ m, m ∈ o.cyclic ↔ g.NearCycle m
  cyclic_suffix : o.cyclic <:+ o.order
  respects : ∀ m d, m ∉ o.cyclic → g.DependsOn m d → [d, m].Sublist o.order
  cyclic_eq_nil_iff : o.cyclic = [] ↔ ∀ m, ¬ Relation.TransGen g.DependsOn m m

theorem Regular.sorts (hg : g.Regular) : g.Sorts g.order := by
  have hcyclic : ∀ m, m ∈ g.order.cyclic ↔ g.NearCycle m := by
    intro m
    constructor
    · intro hm
      have hlt : m < g.size := by
        rw [← List.mem_range, ← g.sorted_perm.mem_iff]
        exact List.mem_append_right _ hm
      exact (mem_left_iff hg.lt_size_of_dependsOn hlt).mp hm
    · exact fun h => (mem_left_iff hg.lt_size_of_dependsOn h.lt_size).mpr h
  constructor
  · exact g.order_perm
  · exact g.left_pairwise
  · exact hcyclic
  · exact List.suffix_append _ _
  · intro m d hm hedge
    have hplaced : m ∈ g.sorted.1 := by
      rcases hedge with ⟨source, hsource, _⟩
      exact (mem_sorted_or_mem_left (lt_size_of_get hsource)).resolve_right hm
    exact (pair_sublist_sorted hedge hplaced).trans (List.sublist_append_left _ _)
  · constructor
    · intro hnil m hcycle
      have hm := (hcyclic m).mpr ⟨m, .refl, hcycle⟩
      rw [hnil] at hm
      cases hm
    · intro hacyclic
      rw [List.eq_nil_iff_forall_not_mem]
      intro m hm
      rcases (hcyclic m).mp hm with ⟨c, _, hcycle⟩
      exact hacyclic c hcycle

/-- However a graph was made, counting never fails and gives its order, and its
modules are sorted by it. -/
theorem run_sorts (operations : List Operation) :
    (run operations).countedOrder? = some (run operations).order ∧
      (run operations).Sorts (run operations).order :=
  ⟨(regular_run operations).countedOrder_eq, (regular_run operations).sorts⟩

/-- A module that imports itself is all there is to a cycle. -/
example : (run [.add "a.js" "" ["a.js", "b.js"] .script, .add "b.js" "" [] .script,
    .link]).order = ⟨[1, 0], [0]⟩ := by
  decide +kernel

end Graph
end ScriptBundler
