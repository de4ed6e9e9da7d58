import Mathlib.Data.List.Basic
import Mathlib.Data.List.Nodup
import Mathlib.Data.List.Perm.Basic
import ScriptBundler.Proofs.BuildSteps
import ScriptBundler.Proofs.Crawl
import ScriptBundler.Proofs.Order

/-!
# Linking of a bundle

A bundle builds every module of its graph once.  The entry is taken out of the
order of the graph and built at the end.  That is no harm to modules that need
it: without a cycle there are none, since the entry reaches them all.
-/

namespace ScriptBundler

variable {g : Graph} {entry path : String} {e : Nat} {m : Module} {p : Project}

namespace Graph

/-!
# Complete graphs

A crawl without errors gives a graph with all that its modules import, and with
nothing that the entry does not reach.
-/

/-- A linked graph that holds all that its modules import, and nothing that the
entry does not reach. -/
structure Complete (g : Graph) (entry : String) : Prop where
  distinct : g.Distinct
  entry_mem : entry ∈ g.paths
  closed : ∀ m ∈ g.modules, ∀ path ∈ m.imports, path ∈ g.paths
  reaches : ∀ path ∈ g.paths, g.Reaches entry path
  linked : ∀ m ∈ g.modules, ∀ path ∈ m.imports, ∀ d,
    g.positionOf? path = some d → d ∈ m.dependencies

theorem Reaches.link (h : g.Reaches entry path) : g.link.Reaches entry path := by
  induction h with
  | entry => exact .entry
  | @step m path _ hm hpath ih =>
    have hlinked : { m with dependencies := g.dependenciesOf m.imports } ∈ g.link.modules :=
      List.mem_map_of_mem hm
    exact .step (m := { m with dependencies := g.dependenciesOf m.imports }) ih hlinked hpath

theorem filterMap_get_range (g : Graph) : (List.range g.size).filterMap g.get? = g.modules := by
  have hget : g.get? = fun i => g.modules[i]? := rfl
  rw [hget, size]
  apply List.ext_getElem?
  intro i
  induction g.modules generalizing i with
  | nil => rfl
  | cons m rest ih =>
    rw [List.length_cons, List.range_succ_eq_map, List.filterMap_cons, List.filterMap_map]
    cases i with
    | zero => rfl
    | succ i => simpa [Function.comp_def] using ih i

/-!
# The place of the entry

Nothing depends on the entry unless there is a cycle, so the entry can be built
last.
-/

theorem Complete.mem_of_closed (hg : g.Complete entry) {positions : List Nat}
    (hentry : ∀ e, g.positionOf? entry = some e → e ∈ positions)
    (hclosed : ∀ i ∈ positions, ∀ m, g.get? i = some m → ∀ d ∈ m.dependencies, d ∈ positions)
    (h : g.Reaches entry path) : ∀ i, g.positionOf? path = some i → i ∈ positions := by
  induction h with
  | entry => exact hentry
  | @step m path _ hm hpath ih =>
    intro i hi
    rcases List.getElem?_of_mem hm with ⟨j, hj⟩
    have hposition : g.positionOf? m.path = some j := positionOf_of_get hg.distinct hj
    exact hclosed j (ih j hposition) m hj i (hg.linked m hm path hpath i hi)

/-- If nothing is left over, no module but the entry itself could depend on the
entry. -/
theorem Complete.ne_entry_of_mem_dependencies (hg : g.Complete entry)
    (hcyclic : g.order.cyclic = []) (he : g.positionOf? entry = some e) {i : Nat}
    (hm : g.get? i = some m) {d : Nat} (hd : d ∈ m.dependencies) : d ≠ e := by
  rintro rfl
  have hnodup : g.order.order.Nodup := g.order_perm.nodup_iff.mpr List.nodup_range
  have hi : i ∈ g.order.order := by
    rw [g.order_perm.mem_iff, List.mem_range]
    exact lt_size_of_get hm
  rcases List.append_of_mem hi with ⟨before, after, horder⟩
  rcases List.append_of_mem (order_respects hcyclic hm horder d hd) with ⟨front, back, hbefore⟩
  have hsplit : g.order.order = front ++ d :: (back ++ i :: after) := by
    rw [horder, hbefore, List.append_assoc, List.cons_append]
  have hreach : i ∈ front ++ [d] := by
    refine hg.mem_of_closed ?_ ?_
      (hg.reaches m.path (List.mem_map_of_mem (mem_of_get hm))) i (positionOf_of_get hg.distinct hm)
    · intro e' he'
      rw [he] at he'
      cases he'
      exact List.mem_append_right _ (List.mem_singleton.mpr rfl)
    · intro j hj m' hm' d' hd'
      rcases List.append_of_mem hj with ⟨left, right, hleft⟩
      have hj' : g.order.order = left ++ j :: (right ++ (back ++ i :: after)) := by
        calc
          g.order.order = (front ++ [d]) ++ (back ++ i :: after) := by rw [hsplit]; simp
          _ = left ++ j :: (right ++ (back ++ i :: after)) := by rw [hleft]; simp
      rw [hleft]
      exact List.mem_append_left _ (order_respects hcyclic hm' hj' d' hd')
  rw [hsplit, List.append_cons] at hnodup
  exact (List.nodup_append.mp hnodup).2.2 i hreach i (by simp) rfl

end Graph

namespace Bundle

def built (g : Graph) (entry : Nat) : List Module :=
  (buildOrder g.order.order entry).filterMap g.get?

theorem buildOrder_perm {order : List Nat} (hnodup : order.Nodup) {entry : Nat}
    (h : entry ∈ order) : (buildOrder order entry).Perm order := by
  have hrest : order.filter (· != entry) = order.erase entry := hnodup.erase_eq_filter entry |>.symm
  rw [buildOrder, hrest]
  exact (List.perm_append_comm).trans (List.perm_cons_erase h).symm

theorem built_perm (g : Graph) {entry : Nat} (h : entry < g.size) :
    (built g entry).Perm g.modules := by
  have hmem : entry ∈ g.order.order := by
    rw [g.order_perm.mem_iff]
    exact List.mem_range.mpr h
  have hperm := buildOrder_perm (g.order_perm.nodup_iff.mpr List.nodup_range) hmem
  rw [← g.filterMap_get_range]
  exact (hperm.trans g.order_perm).filterMap g.get?

theorem built_eq_append {entry : Nat} (h : g.get? entry = some m) :
    ∃ before, built g entry = before ++ [m] := by
  refine ⟨(g.order.order.filter (· != entry)).filterMap g.get?, ?_⟩
  rw [built, buildOrder, List.filterMap_append]
  simp [h]

theorem pair_sublist_buildOrder (hg : g.Complete entry) (hcyclic : g.order.cyclic = [])
    (he : g.positionOf? entry = some e) {i : Nat} (hm : g.get? i = some m) {d : Nat}
    (hd : d ∈ m.dependencies) : [d, i].Sublist (buildOrder g.order.order e) := by
  have hne : d ≠ e := hg.ne_entry_of_mem_dependencies hcyclic he hm hd
  have hi : i ∈ g.order.order := by
    rw [g.order_perm.mem_iff, List.mem_range]
    exact Graph.lt_size_of_get hm
  rcases List.append_of_mem hi with ⟨before, after, horder⟩
  have hbefore : d ∈ before := Graph.order_respects hcyclic hm horder d hd
  rw [buildOrder]
  by_cases hentry : i = e
  · have hleft : [d].Sublist (g.order.order.filter (· != e)) := by
      rw [List.singleton_sublist, List.mem_filter]
      refine ⟨?_, by simpa using hne⟩
      rw [horder]
      exact List.mem_append_left _ hbefore
    rw [hentry]
    exact hleft.append (List.Sublist.refl [e])
  · have hpair : [d, i].Sublist g.order.order := by
      rw [horder]
      exact (List.singleton_sublist.mpr hbefore).append
        (List.singleton_sublist.mpr List.mem_cons_self)
    have hfilter := hpair.filter (· != e)
    have hkeep : [d, i].filter (· != e) = [d, i] := by simp [hne, hentry]
    rw [hkeep] at hfilter
    exact hfilter.trans (List.sublist_append_left _ _)

theorem pair_sublist_built (hg : g.Complete entry) (hcyclic : g.order.cyclic = [])
    (he : g.positionOf? entry = some e) (hm : m ∈ g.modules) (hpath : path ∈ m.imports) :
    ∃ d ∈ g.modules, d.path = path ∧ [d, m].Sublist (built g e) := by
  rcases List.getElem?_of_mem hm with ⟨i, hi⟩
  rcases Graph.exists_positionOf_of_mem (hg.closed m hm path hpath) with ⟨j, hj⟩
  rcases Graph.get_of_positionOf hj with ⟨d, hd, hdpath⟩
  refine ⟨d, Graph.mem_of_get hd, hdpath, ?_⟩
  have hpair := (pair_sublist_buildOrder hg hcyclic he hi
    (hg.linked m hm path hpath j hj)).filterMap g.get?
  have hmodules : [j, i].filterMap g.get? = [d, m] := by
    have hi' : g.get? i = some m := hi
    simp [hd, hi']
  rw [hmodules] at hpair
  exact hpair

end Bundle

/-- A crawl without errors leaves nothing out. -/
theorem Crawl.complete_link {files : Files} {cache : FileCache}
    (h : (Crawl.run p files cache).errors = []) :
    (Crawl.run p files cache).graph.link.Complete p.entryPath := by
  rcases Crawl.run_sound h with ⟨hsound, hnext⟩
  have hfound : ∀ path, path ∈ (Crawl.run p files cache).found ↔
      path ∈ (Crawl.run p files cache).graph.paths := by
    intro path
    rw [hsound.split.mem_iff, hnext]
    simp
  constructor
  · exact hsound.distinct.link
  · rw [Graph.paths_link, ← hfound]
    exact hsound.entry_mem
  · intro m hm path hpath
    rcases Graph.mem_link hm with ⟨source, hsource, _, himports, _⟩
    rw [Graph.paths_link, ← hfound]
    exact hsound.imports source hsource path (himports ▸ hpath)
  · intro path hpath
    rw [Graph.paths_link, ← hfound] at hpath
    exact (hsound.reaches path hpath).link
  · intro m hm path hpath d hd
    rcases Graph.mem_link hm with ⟨_, _, _, _, hdeps⟩
    rw [hdeps, Graph.mem_dependenciesOf]
    exact ⟨path, hpath, by simpa using hd⟩

namespace Build

def IsCycleWarning (warning : String) : Prop :=
  ∃ names, warning = "Circular dependency between: " ++ names

end Build

namespace Project

def moduleGraph (p : Project) (w : Workspace) : Graph :=
  (Crawl.run p (w.files.makeDirectories p.outDir).1 w.cache).graph.link

theorem build_eq_ok {w w' : Workspace} {output : BundleOutput} (h : p.build w = .ok output w') :
    (Crawl.run p (w.files.makeDirectories p.outDir).1 w.cache).errors = [] ∧
    output.code = Bundle.script (p.moduleGraph w) (p.moduleGraph w).order.order
      (((p.moduleGraph w).positionOf? p.entryPath).getD 0) p.config.env ∧
    output.modules = (p.moduleGraph w).paths ∧
    output.assets = (Crawl.run p (w.files.makeDirectories p.outDir).1 w.cache).assets ∧
    ∃ cacheWarnings,
      output.warnings =
        Build.cycleWarnings (p.moduleGraph w) (p.moduleGraph w).order.cyclic ++ cacheWarnings := by
  unfold build at h
  rcases Build.bind_eq_ok h with ⟨_, w₁, hdirs, h₁⟩
  rcases Build.bind_eq_ok h₁ with ⟨c, w₂, hcrawl, h₂⟩
  rcases Build.crawl_eq_ok hcrawl with ⟨hc, herrors⟩
  rw [Build.changeFiles_eq_ok hdirs] at hc
  rcases Build.bind_eq_ok h₂ with ⟨_, w₃, _, h₃⟩
  rcases Build.bind_eq_ok h₃ with ⟨page, w₄, _, h₄⟩
  rcases Build.bind_eq_ok h₄ with ⟨cacheWarnings, w₅, _, h₅⟩
  cases h₅
  unfold moduleGraph
  rw [← hc]
  exact ⟨herrors, rfl, rfl, rfl, cacheWarnings, rfl⟩

theorem cyclic_eq_nil_of_warnings {w w' : Workspace} {output : BundleOutput}
    (h : p.build w = .ok output w')
    (hwarnings : ∀ warning ∈ output.warnings, ¬ Build.IsCycleWarning warning) :
    (p.moduleGraph w).order.cyclic = [] := by
  rcases build_eq_ok h with ⟨_, _, _, _, cacheWarnings, heq⟩
  cases hcyclic : (p.moduleGraph w).order.cyclic with
  | nil => rfl
  | cons first rest =>
    rw [heq, hcyclic] at hwarnings
    exact absurd ⟨_, rfl⟩ (hwarnings _ (List.mem_append_left _ (List.mem_singleton.mpr rfl)))

/-- A bundle is linked: what a module imports is in the bundle, and the end of
the bundle builds every module once, the entry last and, unless a cycle was
warned of, each module behind those it imports. -/
theorem build_links {p : Project} {w w' : Workspace} {output : BundleOutput}
    (h : p.build w = .ok output w') :
    output.modules = (p.moduleGraph w).paths ∧
    (∀ m ∈ (p.moduleGraph w).modules, ∀ path ∈ m.imports, path ∈ output.modules) ∧
    ∃ built : List Module,
      output.code = Bundle.head p.config.env ++
        String.join ((p.moduleGraph w).modules.map (fun m => m.code ++ "\n")) ++
        (String.join (built.map fun m => "modules." ++ m.id ++ "=moduleFns." ++ m.id ++ "();") ++
          "\n\x7d)();\n") ∧
      built.Perm (p.moduleGraph w).modules ∧
      (built.map Module.id).Nodup ∧
      (∃ before entry, built = before ++ [entry] ∧ entry.path = p.entryPath) ∧
      ((∀ warning ∈ output.warnings, ¬ Build.IsCycleWarning warning) →
        ∀ m ∈ built, ∀ path ∈ m.imports, ∃ d, d.path = path ∧ [d, m].Sublist built) := by
  rcases build_eq_ok h with ⟨herrors, hcode, hmodules, _⟩
  have hg : (p.moduleGraph w).Complete p.entryPath := Crawl.complete_link herrors
  rcases Graph.exists_positionOf_of_mem hg.entry_mem with ⟨e, he⟩
  rcases Graph.get_of_positionOf he with ⟨entry, hentry, hpath⟩
  have hperm := Bundle.built_perm (p.moduleGraph w) (Graph.lt_size_of_get hentry)
  refine ⟨hmodules, ?_, Bundle.built (p.moduleGraph w) e, ?_, hperm, ?_, ?_, ?_⟩
  · intro m hm path himport
    rw [hmodules]
    exact hg.closed m hm path himport
  · rw [hcode, he]
    rfl
  · exact (hperm.map Module.id).nodup_iff.mpr hg.distinct.ids
  · rcases Bundle.built_eq_append hentry with ⟨before, hbuilt⟩
    exact ⟨before, entry, hbuilt, hpath⟩
  · intro hwarnings m hm path himport
    have hcyclic := cyclic_eq_nil_of_warnings h hwarnings
    rcases Bundle.pair_sublist_built hg hcyclic he (hperm.mem_iff.mp hm) himport with
      ⟨d, _, hd, hpair⟩
    exact ⟨d, hd, hpair⟩

def pairWorkspace : Workspace where
  files := ⟨[(["a.js"], .file (Utf8.encode "require('./b')") ⟨1, 0⟩),
    (["b.js"], .file [] ⟨2, 0⟩)], [], ⟨3, 0⟩⟩
  cache := .empty
  reachable := []

theorem build_links_pair : ∃ output w', (ofEntry "a.js").build pairWorkspace = .ok output w' ∧
    output.modules = ["a.js", "b.js"] ∧
    ∃ built : List Module, built.Perm ((ofEntry "a.js").moduleGraph pairWorkspace).modules ∧
      ∀ m ∈ built, ∀ path ∈ m.imports, ∃ d, d.path = path ∧ [d, m].Sublist built := by
  have hrun : Build.succeeds ((ofEntry "a.js").build pairWorkspace) (fun output =>
      decide (output.modules = ["a.js", "b.js"] ∧ output.warnings = [])) = true := by
    decide +kernel
  obtain ⟨output, w', hbuild, hchecked⟩ := Build.exists_ok_of_succeeds hrun
  rcases of_decide_eq_true hchecked with ⟨hmodules, hwarnings⟩
  rcases build_links hbuild with ⟨_, _, built, _, hperm, _, _, hpairs⟩
  refine ⟨output, w', hbuild, hmodules, built, hperm, hpairs ?_⟩
  intro warning hwarning
  rw [hwarnings] at hwarning
  cases hwarning

end Project
end ScriptBundler
