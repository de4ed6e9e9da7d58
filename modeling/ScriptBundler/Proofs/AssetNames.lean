import Mathlib.Data.List.TakeWhile
import ScriptBundler.Proofs.Copies
import ScriptBundler.Proofs.Linking

/-!
# Names of copied assets

The name of a copy is the id of the module, which has no point, and behind it a
point and the extension if there is one.  So the id is what stands in front of
the first point of the name, and copies of different modules have different
names.
-/

namespace ScriptBundler
namespace Asset

variable {path path' name : String}

theorem takeWhile_fileName (path : String) :
    (fileName path).toList.takeWhile (· != '.') = (ModulePath.id path).toList := by
  have hid : ∀ c ∈ (ModulePath.id path).toList, (c != '.') = true := by
    rintro c hc
    refine bne_iff_ne.mpr fun hpoint => ?_
    exact ModulePath.notMem_id (Or.inr (Or.inl hpoint)) hc
  unfold fileName
  split
  · rw [String.toList_append, String.toList_append, List.append_assoc,
      List.takeWhile_append_of_pos hid]
    exact List.append_nil _
  · exact List.takeWhile_eq_self_iff.mpr hid

theorem id_eq_of_fileName_eq (h : fileName path = fileName path') :
    ModulePath.id path = ModulePath.id path' :=
  String.toList_inj.mp (by rw [← takeWhile_fileName, h, takeWhile_fileName])

theorem kindOf_eq_asset_iff : kindOf path = .asset ↔ isScript path = false := by
  unfold kindOf
  split <;> simp_all

theorem IsCopyName.ne_output (h : IsCopyName name) : name ≠ "bundle.js" ∧ name ≠ "index.html" := by
  constructor
  · rintro rfl
    exact absurd (h.underscore_mem (by decide)) (by decide)
  · rintro rfl
    exact absurd (h.underscore_mem (by decide)) (by decide)

end Asset

namespace Project

open Asset

theorem assets_eq_of_build {p : Project} {w w' : Workspace} {output : BundleOutput}
    (h : p.build w = .ok output w') :
    (∀ m ∈ (p.moduleGraph w).modules, m.kind = kindOf m.path) ∧
    output.assets = copies (p.moduleGraph w).paths := by
  rcases build_eq_ok h with ⟨herrors, _, _, hassets, _⟩
  have hsound := (Crawl.run_sound herrors).1
  rw [hassets, moduleGraph]
  generalize Crawl.run p (w.files.makeDirectories p.outDir).1 w.cache = c at hsound ⊢
  constructor
  · intro m hm
    rcases List.mem_map.mp hm with ⟨source, hsource, rfl⟩
    exact hsound.kinds source hsource
  · rw [hsound.assets, Graph.paths_link]

/-- Names of assets do not clash.  Copies with the same name are of modules with
the same id, so the copies that a build makes have names of their own, which are
not the names of the bundle and the page either. -/
theorem asset_names_distinct :
    (∀ path path', isScript path = false → isScript path' = false →
      fileName path = fileName path' → ModulePath.id path = ModulePath.id path') ∧
    ∀ (p : Project) (w w' : Workspace) (output : BundleOutput), p.build w = .ok output w' →
      output.assets = ((p.moduleGraph w).modules.filter (fun m => m.kind = .asset)).map
        (fun m => fileName m.path) ∧
      output.assets.Nodup ∧ "bundle.js" ∉ output.assets ∧ "index.html" ∉ output.assets ∧
      ∀ m ∈ (p.moduleGraph w).modules, ∀ m' ∈ (p.moduleGraph w).modules,
        m.kind = .asset → m'.kind = .asset → m ≠ m' → fileName m.path ≠ fileName m'.path := by
  refine ⟨fun _ _ _ _ h => id_eq_of_fileName_eq h, fun p w w' output h => ?_⟩
  rcases assets_eq_of_build h with ⟨hkinds, hcopies⟩
  have hdistinct : (p.moduleGraph w).Distinct := (Crawl.complete_link (build_eq_ok h).1).distinct
  generalize p.moduleGraph w = g at *
  have hassets : output.assets =
      (g.modules.filter (fun m => m.kind = .asset)).map (fun m => fileName m.path) := by
    rw [hcopies, copies, Graph.paths, List.filter_map, List.map_map]
    congr 1
    refine List.filter_congr fun m hm => ?_
    simp [hkinds m hm, kindOf_eq_asset_iff]
  have hcopy : ∀ name ∈ output.assets, IsCopyName name := by
    intro name hname
    rw [hcopies, copies, List.mem_map] at hname
    rcases hname with ⟨path, hpath, rfl⟩
    exact ⟨path, by simpa using (List.mem_filter.mp hpath).2, rfl⟩
  refine ⟨hassets, ?_, fun hmem => (hcopy _ hmem).ne_output.1 rfl,
    fun hmem => (hcopy _ hmem).ne_output.2 rfl, ?_⟩
  · rw [hassets]
    exact List.Pairwise.map _ (fun _ _ hne heq => hne (id_eq_of_fileName_eq heq))
      (List.pairwise_map.mp (hdistinct.ids.sublist (List.filter_sublist.map Module.id)))
  · intro m hm m' hm' _ _ hne heq
    exact hne (List.inj_on_of_nodup_map hdistinct.ids hm hm' (id_eq_of_fileName_eq heq))

def assetsWorkspace : Workspace :=
  ⟨⟨[(["index.js"], .file (Utf8.encode "require('./index.html');require('./a.b.')") ⟨1, 0⟩),
    (["index.html"], .file [] ⟨1, 0⟩), (["a.b."], .file [] ⟨1, 0⟩)], [], ⟨2, 0⟩⟩, .empty, []⟩

theorem asset_names_distinct_page :
    fileName "a-b.c" = fileName "a_b.c" ∧ ModulePath.id "a-b.c" = ModulePath.id "a_b.c" ∧
    ∃ output w', (ofEntry "index.js").build assetsWorkspace = .ok output w' ∧
      output.assets = ["index_html.html", "a_b_."] ∧ "index.html" ∉ output.assets := by
  have hname : fileName "a-b.c" = fileName "a_b.c" := by decide +kernel
  refine ⟨hname, asset_names_distinct.1 _ _ (by decide +kernel) (by decide +kernel) hname, ?_⟩
  have hrun : Build.succeeds ((ofEntry "index.js").build assetsWorkspace) (fun output =>
      decide (output.assets = ["index_html.html", "a_b_."])) = true := by
    decide +kernel
  obtain ⟨output, w', hbuild, hassets⟩ := Build.exists_ok_of_succeeds hrun
  rcases asset_names_distinct.2 _ _ _ _ hbuild with ⟨_, _, _, hpage, _⟩
  exact ⟨output, w', hbuild, of_decide_eq_true hassets, hpage⟩

end Project
end ScriptBundler
