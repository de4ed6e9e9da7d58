import Mathlib.Data.List.Basic
import Mathlib.Data.List.Nodup
import ScriptBundler.Proofs.CacheSession
import ScriptBundler.Proofs.Copies
import ScriptBundler.Proofs.Crawl

/-!
# The rounds of a crawl

A crawl goes breadth first: a round loads the paths that are as many imports
away from the entry as there were rounds before it.  Every path is loaded once,
whether or not it can be, and with it the files that it imports are found as
they stood when the crawl began.
-/

namespace ScriptBundler

variable {known paths visited : List String} {path : String} {p : Project} {files : Files}
  {cache : FileCache} {c : Crawl}

/-- A path is some number of imports away from an entry. -/
inductive ImportChain (imports : String → List String) (entry : String) : Nat → String → Prop where
  | entry : ImportChain imports entry 0 entry
  | step {n : Nat} {path target : String} :
      ImportChain imports entry n path → target ∈ imports path →
      ImportChain imports entry (n + 1) target

/-- The paths that a file imports.  A file that cannot be loaded imports nothing. -/
def Project.importsAt (p : Project) (files : Files) (cache : FileCache) (path : String) :
    List String :=
  match (loadFile p files cache path).2 with
  | .ok file => file.found.imports
  | .error _ => []

theorem unknown_append (known before after : List String) :
    unknown known (before ++ after) =
      unknown known before ++ unknown (known ++ unknown known before) after := by
  induction before generalizing known with
  | nil => simp
  | cons path before ih =>
    by_cases hpath : path ∈ known
    · rw [List.cons_append, unknown_cons_of_mem hpath, unknown_cons_of_mem hpath, ih]
    · rw [List.cons_append, unknown_cons_of_notMem hpath, unknown_cons_of_notMem hpath, ih]
      simp

theorem eraseDups_append_eq (known paths : List String) :
    (known ++ paths).eraseDups = known.eraseDups ++ unknown known.eraseDups paths := by
  rw [List.eraseDups_append, unknown]
  congr 2
  simp [List.removeAll]

theorem Table.get_insert_of_ne {α : Type} (t : Table α) {key other : String} (value : α)
    (h : other ≠ key) : (t.insert key value).get? other = t.get? other := by
  have hbeq : (other == key) = false := beq_eq_false_iff_ne.mpr h
  unfold insert
  split
  · change List.lookup other (replace key value t.entries) = t.entries.lookup other
    induction t.entries with
    | nil => rfl
    | cons entry entries ih =>
      change List.lookup other ((if entry.1 = key then (key, value) else entry) ::
        replace key value entries) = _
      by_cases hentry : entry.1 = key
      · rw [if_pos hentry, List.lookup_cons, List.lookup_cons, hentry, hbeq]
        exact ih
      · rw [if_neg hentry, List.lookup_cons, List.lookup_cons, ih]
  · change List.lookup other (t.entries ++ [(key, value)]) = t.entries.lookup other
    rw [List.lookup_append, List.lookup_cons, hbeq]
    exact Option.or_none

namespace Crawl

/-!
# One visit

A visit lines up the imports of its file that have not been found before.
-/

theorem found_visit (p : Project) (c : Crawl) (path : String) :
    (c.visit p path).found =
        c.found ++ unknown c.found (p.importsAt c.files c.cache path) ∧
      (c.visit p path).next =
        c.next ++ unknown c.found (p.importsAt c.files c.cache path) := by
  unfold visit Project.importsAt
  rcases loadFile p c.files c.cache path with ⟨files, e | file⟩
  · simp [fail]
  · dsimp only
    rw [accept_eq, addModule_eq]
    exact ⟨rfl, rfl⟩

theorem cache_visit (p : Project) (c : Crawl) {path other : String} (h : other ≠ path) :
    (c.visit p path).cache.get? other = c.cache.get? other := by
  unfold visit
  rcases hload : loadFile p c.files c.cache path with ⟨files, e | file⟩
  · rfl
  · dsimp only
    rw [cache_accept]
    unfold remember
    split
    · rw [(loadFile_isOf hload).1.1]
      exact Table.get_insert_of_ne _ _ h
    · rfl

/-- How a crawl stands to the files and the cache with which it began: it has
made nothing but copies, and has entered nothing into the cache but the paths
that it has visited. -/
structure Underway (files : Files) (cache : FileCache) (visited : List String) (c : Crawl) :
    Prop where
  copied : files.Copied c.files
  entered : ∀ path, path ∉ visited → c.cache.get? path = cache.get? path

theorem Underway.visit (h : Underway files cache visited c) (hsettled : files.Settled p.outDir)
    (path : String) : Underway files cache (visited ++ [path]) (c.visit p path) := by
  constructor
  · rw [files_visit]
    exact h.copied.trans (copied_loadFile (hsettled.later h.copied.toWidens) c.cache path)
  · intro other hother
    rw [List.mem_append, not_or] at hother
    rw [cache_visit p c (by simpa using hother.2), h.entered other hother.1]

theorem Underway.importsAt (h : Underway files cache visited c) (hpath : path ∉ visited) :
    p.importsAt c.files c.cache path = p.importsAt files cache path := by
  cases hscript : Asset.isScript path with
  | true =>
    unfold Project.importsAt
    rw [h.copied.loadFile_script p hscript (h.entered path hpath)]
  | false =>
    have hasset : ∀ files cache, p.importsAt files cache path = [] := by
      intro files cache
      unfold Project.importsAt
      rcases hload : loadFile p files cache path with ⟨_, e | file⟩
      · rfl
      · cases loads_of_loadFile hload with
        | cached _ hyes | compiled _ hyes => cases hscript.symm.trans hyes
        | copied => rfl
    rw [hasset, hasset]

/-!
# One round

A round visits the paths that are `k` imports away, and lines up those that are one
step further.
-/

theorem Underway.foldl_visit (hsettled : files.Settled p.outDir) (paths : List String)
    (h : Underway files cache visited c) (hnodup : (visited ++ paths).Nodup) :
    Underway files cache (visited ++ paths) (paths.foldl (Crawl.visit p) c) ∧
    (paths.foldl (Crawl.visit p) c).found =
      c.found ++ unknown c.found (paths.flatMap (p.importsAt files cache)) ∧
    (paths.foldl (Crawl.visit p) c).next =
      c.next ++ unknown c.found (paths.flatMap (p.importsAt files cache)) := by
  induction paths generalizing visited c with
  | nil =>
    rw [List.append_nil]
    exact ⟨h, by simp, by simp⟩
  | cons path paths ih =>
    have hassoc : visited ++ path :: paths = visited ++ [path] ++ paths := by simp
    have hpath : path ∉ visited := by
      intro hmem
      exact (List.nodup_append.mp hnodup).2.2 path hmem path List.mem_cons_self rfl
    rw [hassoc] at hnodup ⊢
    rcases ih (h.visit hsettled path) hnodup with ⟨hunder, hfound, hnext⟩
    rcases found_visit p c path with ⟨hfirst, hline⟩
    rw [h.importsAt hpath] at hfirst hline
    rw [List.foldl_cons, List.flatMap_cons, unknown_append]
    refine ⟨hunder, ?_, ?_⟩
    · rw [hfound, hfirst, List.append_assoc]
    · rw [hnext, hfirst, hline, List.append_assoc]

/-- What holds between two rounds.  The paths in `visited` are those of the first
`k` rounds. -/
structure Between (p : Project) (files : Files) (cache : FileCache) (k : Nat)
    (visited : List String) (c : Crawl) : Prop extends Underway files cache visited c where
  split : c.found = visited ++ c.next
  /-- The paths are found in the order in which the visited files name them. -/
  order : c.found = (p.entryPath :: visited.flatMap (p.importsAt files cache)).eraseDups
  near : ∀ path, path ∈ visited ↔
    ∃ n < k, ImportChain (p.importsAt files cache) p.entryPath n path

theorem between_start (p : Project) (files : Files) (cache : FileCache) :
    Between p files cache 0 [] (start files cache p.entryPath) where
  copied := .refl files
  entered := fun _ _ => rfl
  split := rfl
  order := rfl
  near := by simp

section Between

variable {k : Nat}

section
variable (h : Between p files cache k visited c)
include h

theorem Between.nodup : (visited ++ c.next).Nodup := by
  rw [← h.split, h.order]
  exact nodup_eraseDups _

theorem Between.mem_found (path : String) :
    path ∈ visited ++ c.next ↔
      ∃ n < k + 1, ImportChain (p.importsAt files cache) p.entryPath n path := by
  rw [← h.split, h.order, List.mem_eraseDups, List.mem_cons, List.mem_flatMap]
  constructor
  · rintro (rfl | ⟨source, hsource, htarget⟩)
    · exact ⟨0, Nat.succ_pos k, .entry⟩
    · rcases (h.near source).mp hsource with ⟨n, hn, hchain⟩
      exact ⟨n + 1, Nat.succ_lt_succ hn, .step hchain htarget⟩
  · rintro ⟨n, hn, hchain⟩
    cases hchain with
    | entry => exact Or.inl rfl
    | step hchain htarget =>
      exact Or.inr ⟨_, (h.near _).mpr ⟨_, Nat.lt_of_succ_lt_succ hn, hchain⟩, htarget⟩

theorem Between.mem_next (path : String) :
    path ∈ c.next ↔
      ImportChain (p.importsAt files cache) p.entryPath k path ∧
        ∀ n < k, ¬ImportChain (p.importsAt files cache) p.entryPath n path := by
  have hfound := h.mem_found path
  rw [List.mem_append] at hfound
  constructor
  · intro hmem
    have hnew : path ∉ visited :=
      fun hold => (List.nodup_append.mp h.nodup).2.2 path hold path hmem rfl
    have hfar : ∀ n < k, ¬ImportChain (p.importsAt files cache) p.entryPath n path :=
      fun n hn hchain => hnew ((h.near path).mpr ⟨n, hn, hchain⟩)
    rcases hfound.mp (Or.inr hmem) with ⟨n, hn, hchain⟩
    have heq : n = k := by
      rcases Nat.lt_or_ge n k with hlt | hge
      · exact absurd hchain (hfar n hlt)
      · omega
    exact ⟨heq ▸ hchain, hfar⟩
  · rintro ⟨hchain, hfar⟩
    rcases hfound.mpr ⟨k, Nat.lt_succ_self k, hchain⟩ with hold | hmem
    · rcases (h.near path).mp hold with ⟨n, hn, hshort⟩
      exact absurd hshort (hfar n hn)
    · exact hmem

theorem Between.exists_short (hnext : c.next = []) {n : Nat}
    (hchain : ImportChain (p.importsAt files cache) p.entryPath n path) :
    ∃ m < k, ImportChain (p.importsAt files cache) p.entryPath m path := by
  have hfound := h.mem_found
  rw [hnext, List.append_nil] at hfound
  induction hchain with
  | entry => exact (h.near _).mp ((hfound _).mpr ⟨0, Nat.succ_pos k, .entry⟩)
  | step _ htarget ih =>
    rcases ih with ⟨m, hm, hchain⟩
    exact (h.near _).mp ((hfound _).mpr ⟨m + 1, Nat.succ_lt_succ hm, .step hchain htarget⟩)

end

/-- A round visits what is lined up, and lines up what is new. -/
theorem Between.round (hsettled : files.Settled p.outDir) (h : Between p files cache k visited c) :
    Between p files cache (k + 1) (visited ++ c.next)
      (c.next.foldl (visit p) { c with next := [] }) ∧
    (c.next.foldl (visit p) { c with next := [] }).next =
      unknown c.found (c.next.flatMap (p.importsAt files cache)) := by
  have hbegin : Underway files cache visited { c with next := [] } := ⟨h.copied, h.entered⟩
  rcases hbegin.foldl_visit hsettled c.next h.nodup with ⟨hunder, hfound, hnext⟩
  refine ⟨⟨hunder, ?_, ?_, h.mem_found⟩, hnext⟩
  · rw [hfound, hnext]
    change c.found ++ _ = _
    rw [h.split]
    rfl
  · rw [hfound]
    change c.found ++ unknown c.found _ = _
    rw [List.flatMap_append, ← List.cons_append, eraseDups_append_eq, ← h.order]

end Between

/-- A crawl comes to its end in some rounds, each of which takes up the paths
that the one before it has lined up. -/
inductive Ends (p : Project) : Crawl → List (List String) → Crawl → Prop where
  | done {c : Crawl} : c.next = [] → Ends p c [] c
  | round {c last : Crawl} {frontiers : List (List String)} :
      c.next ≠ [] → Ends p (c.next.foldl (visit p) { c with next := [] }) frontiers last →
      Ends p c (c.next :: frontiers) last

theorem rounds_of_next (h : c.next = []) (n : Nat) : rounds p n c = c := by
  cases n with
  | zero => rfl
  | succ n =>
    rw [rounds, h]

theorem rounds_succ (h : c.next ≠ []) (n : Nat) :
    rounds p (n + 1) c = rounds p n (c.next.foldl (visit p) { c with next := [] }) := by
  rw [rounds]
  split
  · rename_i hnil
    exact absurd hnil h
  · rfl

def isShort (path : String) : Bool :=
  decide (path.utf8ByteSize ≤ Files.longestPath)

theorem importsAt_of_long (h : isShort path = false) : p.importsAt files cache path = [] := by
  unfold Project.importsAt
  rcases hload : loadFile p files cache path with ⟨files', e | file⟩
  · rfl
  · have hshort := (loadFile_isOf hload).2
    unfold isShort at h
    rw [decide_eq_true hshort] at h
    cases h

section
variable (hsettled : files.Settled p.outDir)
include hsettled

/-- Every round that is not the last but one loads a short path for the first
time, so the crawl ends before there are as many rounds as short paths. -/
theorem ends_rounds (n : Nat) {k : Nat} (h : Between p files cache k visited c)
    (hn : 256 ^ (Files.longestPath + 1) ≤ n + (visited.filter isShort).length) :
    ∃ frontiers, Ends p c frontiers (rounds p n c) := by
  induction n generalizing k visited c with
  | zero =>
    have hshort : ∀ path ∈ visited.filter isShort, path.utf8ByteSize ≤ Files.longestPath := by
      intro path hpath
      simpa [isShort] using (List.mem_filter.mp hpath).2
    have hnodup := (List.nodup_append.mp h.nodup).1.filter isShort
    have hlt := length_lt_of_byteSize_le hnodup hshort
    rw [Nat.zero_add] at hn
    exact absurd (Nat.lt_of_lt_of_le hlt hn) (Nat.lt_irrefl _)
  | succ n ih =>
    by_cases hnext : c.next = []
    · rw [rounds_of_next hnext]
      exact ⟨[], .done hnext⟩
    · rcases h.round hsettled with ⟨hround, hline⟩
      rw [rounds_succ hnext]
      by_cases hlong : c.next.filter isShort = []
      · have hnone : c.next.flatMap (p.importsAt files cache) = [] := by
          rw [List.flatMap_eq_nil_iff]
          intro path hpath
          apply importsAt_of_long
          simpa using List.filter_eq_nil_iff.mp hlong path hpath
        rw [hnone, unknown_nil] at hline
        rw [rounds_of_next hline]
        exact ⟨[c.next], .round hnext (.done hline)⟩
      · have hpos : 0 < (c.next.filter isShort).length := List.length_pos_iff.mpr hlong
        have hmore : 256 ^ (Files.longestPath + 1) ≤
            n + ((visited ++ c.next).filter isShort).length := by
          rw [List.filter_append, List.length_append]
          generalize 256 ^ (Files.longestPath + 1) = bound at hn
          omega
        rcases ih hround hmore with ⟨frontiers, hends⟩
        exact ⟨c.next :: frontiers, .round hnext hends⟩

theorem ends_run (cache : FileCache) :
    ∃ frontiers, Ends p (start files cache p.entryPath) frontiers (run p files cache) := by
  have hrounds : 256 ^ (Files.longestPath + 1) ≤ mostRounds := by
    rw [mostRounds, Nat.pow_eq]
  rw [run]
  generalize mostRounds = n at hrounds ⊢
  exact ends_rounds hsettled n (between_start p files cache)
    (Nat.le_trans hrounds (Nat.le_add_right _ _))

/-- The rounds of a crawl take up every path that is found, and round `j` from
here takes up those that are `k + j` imports away. -/
theorem Ends.frontiers {k : Nat} {c last : Crawl} {frontiers : List (List String)}
    (hends : Ends p c frontiers last) (h : Between p files cache k visited c) :
    Between p files cache (k + frontiers.length) (visited ++ frontiers.flatten) last ∧
    last.next = [] ∧
    ∀ j path, path ∈ frontiers.getD j [] ↔
      ImportChain (p.importsAt files cache) p.entryPath (k + j) path ∧
        ∀ n < k + j, ¬ImportChain (p.importsAt files cache) p.entryPath n path := by
  induction hends generalizing k visited with
  | done hnext =>
    refine ⟨by simpa using h, hnext, ?_⟩
    intro j path
    constructor
    · intro hmem
      simp at hmem
    · rintro ⟨hchain, hfar⟩
      rcases h.exists_short hnext hchain with ⟨m, hm, hbefore⟩
      exact absurd hbefore (hfar m (Nat.lt_of_lt_of_le hm (Nat.le_add_right k j)))
  | @round c last frontiers hnext _ ih =>
    rcases ih (h.round hsettled).1 with ⟨hlast, hline, hlevels⟩
    refine ⟨?_, hline, ?_⟩
    · rw [List.length_cons, List.flatten_cons, ← List.append_assoc]
      rw [Nat.add_assoc, Nat.add_comm 1] at hlast
      exact hlast
    · intro j path
      cases j with
      | zero => exact h.mem_next path
      | succ j =>
        have hlevel := hlevels j path
        rw [Nat.add_assoc, Nat.add_comm 1 j] at hlevel
        exact hlevel

theorem run_frontiers (cache : FileCache) :
    ∃ frontiers, Ends p (start files cache p.entryPath) frontiers (run p files cache) ∧
      Between p files cache frontiers.length frontiers.flatten (run p files cache) ∧
      (run p files cache).next = [] ∧
      ∀ k path, path ∈ frontiers.getD k [] ↔
        ImportChain (p.importsAt files cache) p.entryPath k path ∧
          ∀ n < k, ¬ImportChain (p.importsAt files cache) p.entryPath n path := by
  rcases ends_run hsettled cache with ⟨frontiers, hends⟩
  rcases hends.frontiers hsettled (between_start p files cache) with ⟨hlast, hnext, hlevels⟩
  rw [Nat.zero_add, List.nil_append] at hlast
  simp only [Nat.zero_add] at hlevels
  exact ⟨frontiers, hends, hlast, hnext, hlevels⟩

end

end Crawl

namespace Project

open Build

theorem reachable_finish (p : Project) (c : Crawl) (w : Workspace) :
    (left (p.finish c w)).reachable = w.reachable := by
  refine preserves_finish (P := fun w' => w'.reachable = w.reachable) ?_ ?_ ?_ c w rfl
  · intro w' hreachable
    exact Eq.trans rfl hreachable
  · intro w' path text files hreachable _
    exact Eq.trans rfl hreachable
  · intro w' hreachable
    exact Eq.trans rfl hreachable

theorem build_apply {w : Workspace} (h : w.files.makeDirectories p.outDir = (files, none)) :
    p.build w = (crawl p >>= p.finish) { w with files := files } := by
  rw [build_eq, bind_apply, changeFiles_apply, h]

theorem reachable_run {w : Workspace} (h : w.files.makeDirectories p.outDir = (files, none)) :
    (p.run w).2.reachable = (Crawl.run p files w.cache).found := by
  rw [run_snd, build_apply h, crawl_finish_apply]
  dsimp only
  generalize Crawl.run p files w.cache = c
  split
  · rw [reachable_finish]
  · rfl

/-- The crawl of a build ends.  It takes up the paths that can be reached from the
entry through the imports of files that load, and no others: the entry first,
each path once, and in the order in which the imports name them.  Each round
loads the paths that are equally far from the entry. -/
theorem run_reachable {p : Project} {w : Workspace} {files : Files}
    (h : w.files.makeDirectories p.outDir = (files, none)) :
    ∃ frontiers : List (List String),
      Crawl.Ends p (.start files w.cache p.entryPath) frontiers (.run p files w.cache) ∧
      (p.run w).2.reachable = frontiers.flatten ∧
      (p.run w).2.reachable.Nodup ∧
      (p.run w).2.reachable.head? = some p.entryPath ∧
      (p.run w).2.reachable =
        (p.entryPath :: (p.run w).2.reachable.flatMap (p.importsAt files w.cache)).eraseDups ∧
      (∀ k path, path ∈ frontiers.getD k [] ↔
        ImportChain (p.importsAt files w.cache) p.entryPath k path ∧
          ∀ n < k, ¬ImportChain (p.importsAt files w.cache) p.entryPath n path) ∧
      ∀ path, path ∈ (p.run w).2.reachable ↔
        ∃ n, ImportChain (p.importsAt files w.cache) p.entryPath n path := by
  have hsettled := Files.settled_of_makeDirectories h
  rw [reachable_run h]
  rcases Crawl.run_frontiers hsettled w.cache with ⟨frontiers, hends, hlast, hnext, hlevels⟩
  generalize Crawl.run p files w.cache = last at hends hlast hnext ⊢
  have hfound : last.found = frontiers.flatten := by
    rw [hlast.split, hnext, List.append_nil]
  have horder := hlast.order
  rw [← hfound] at horder
  refine ⟨frontiers, hends, hfound, ?_, ?_, horder, hlevels, ?_⟩
  · rw [hlast.split]
    exact hlast.nodup
  · rw [horder, List.eraseDups_cons, List.head?_cons]
  · intro path
    rw [hfound, hlast.near]
    constructor
    · rintro ⟨n, _, hchain⟩
      exact ⟨n, hchain⟩
    · rintro ⟨n, hchain⟩
      exact hlast.exists_short hnext hchain

def cyclicFiles : Files :=
  ⟨[(["index.js"], .file (Utf8.encode "require('./a');require('./b.png')") ⟨1, 0⟩),
    (["a.js"], .file (Utf8.encode "require('./index');require('./a');require('./c')") ⟨1, 0⟩),
    (["b.png"], .file [] ⟨1, 0⟩)], [], ⟨2, 0⟩⟩

theorem run_reachable_cyclic :
    ((ofEntry "index.js").run ⟨cyclicFiles, Table.empty, []⟩).2.reachable =
      ["index.js", "a.js", "b.png", "c.js"] ∧
    ∃ n, ImportChain
      ((ofEntry "index.js").importsAt
        (cyclicFiles.makeDirectories (ofEntry "index.js").outDir).1 Table.empty)
      (ofEntry "index.js").entryPath n "c.js" := by
  have hnone : (cyclicFiles.makeDirectories (ofEntry "index.js").outDir).2 = none := by
    decide +kernel
  have hmade : (⟨cyclicFiles, Table.empty, []⟩ : Workspace).files.makeDirectories
      (ofEntry "index.js").outDir =
        ((cyclicFiles.makeDirectories (ofEntry "index.js").outDir).1, none) :=
    Prod.ext rfl hnone
  have hreachable : ((ofEntry "index.js").run ⟨cyclicFiles, Table.empty, []⟩).2.reachable =
      ["index.js", "a.js", "b.png", "c.js"] := by decide +kernel
  rcases run_reachable hmade with ⟨_, _, _, _, _, _, _, hmem⟩
  refine ⟨hreachable, (hmem "c.js").mp ?_⟩
  rw [hreachable]
  simp

end Project
end ScriptBundler
