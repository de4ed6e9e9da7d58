import Mathlib.Data.List.Basic
import Mathlib.Data.List.Nodup
import Mathlib.Data.List.Perm.Basic
import ScriptBundler.Bundle.Graph

/-!
# Graphs of modules

No two modules of a graph have the same path or the same id.  Looking a path up
and adding a module are described by what they do to the list of paths, and
linking by the edges that it makes.
-/

namespace ScriptBundler
namespace Graph

variable {g : Graph} {path : String} {position d : Nat} {m : Module}

theorem positionOf_eq_none_iff : g.positionOf? path = none ↔ path ∉ g.paths := by
  rw [positionOf?, List.findIdx?_eq_none_iff, paths, List.mem_map]
  constructor
  · rintro h ⟨m, hm, rfl⟩
    simpa using h m hm
  · intro h m hm
    simp only [beq_eq_false_iff_ne]
    intro hpath
    exact h ⟨m, hm, hpath⟩

theorem get_of_positionOf (h : g.positionOf? path = some position) :
    ∃ m, g.get? position = some m ∧ m.path = path := by
  rw [positionOf?, List.findIdx?_eq_some_iff_getElem] at h
  rcases h with ⟨hlt, hpath, _⟩
  exact ⟨g.modules[position], List.getElem?_eq_getElem hlt, by simpa using hpath⟩

theorem exists_positionOf_of_mem (h : path ∈ g.paths) :
    ∃ position, g.positionOf? path = some position := by
  cases hposition : g.positionOf? path with
  | none => exact absurd h (positionOf_eq_none_iff.mp hposition)
  | some position => exact ⟨position, rfl⟩

theorem mem_of_get (h : g.get? position = some m) : m ∈ g.modules :=
  List.mem_of_getElem? h

theorem lt_size_of_get (h : g.get? position = some m) : position < g.size :=
  (List.getElem?_eq_some_iff.mp h).1

structure Distinct (g : Graph) : Prop where
  paths : g.paths.Nodup
  ids : (g.modules.map Module.id).Nodup

theorem distinct_empty : Distinct .empty :=
  ⟨List.nodup_nil, List.nodup_nil⟩

theorem positionOf_of_get (hg : g.Distinct) (hm : g.get? position = some m) :
    g.positionOf? m.path = some position := by
  have hmem : m.path ∈ g.paths := List.mem_map_of_mem (mem_of_get hm)
  rcases exists_positionOf_of_mem hmem with ⟨other, hother⟩
  rcases get_of_positionOf hother with ⟨m', hm', hpath⟩
  rw [hother]
  have hleft : g.paths[other]? = some m.path := by
    rw [paths, List.getElem?_map]
    change Option.map Module.path (g.get? other) = some m.path
    rw [hm', Option.map_some, hpath]
  have hright : g.paths[position]? = some m.path := by
    rw [paths, List.getElem?_map]
    change Option.map Module.path (g.get? position) = some m.path
    rw [hm, Option.map_some]
  have hlt : other < g.paths.length := (List.getElem?_eq_some_iff.mp hleft).1
  exact congrArg some ((List.getElem?_inj hlt hg.paths).mp (hleft.trans hright.symm))

theorem positionOf_eq_some_iff (hg : g.Distinct) :
    g.positionOf? path = some position ↔ ∃ m, g.get? position = some m ∧ m.path = path := by
  constructor
  · exact get_of_positionOf
  · rintro ⟨m, hm, rfl⟩
    exact positionOf_of_get hg hm

theorem add_of_notMem (hpath : m.path ∉ g.paths) {g' : Graph} (h : g.add m = .ok (position, g')) :
    g'.modules = g.modules ++ [m] ∧ m.id ∉ g.modules.map Module.id := by
  unfold add at h
  rw [positionOf_eq_none_iff.mpr hpath] at h
  dsimp only at h
  split at h
  · cases h
  · rename_i hnone
    cases h
    refine ⟨rfl, ?_⟩
    rw [List.mem_map]
    rintro ⟨other, hother, hid⟩
    have hne := List.find?_eq_none.mp hnone other hother
    exact hne (by simpa using hid)

theorem Distinct.add (hg : g.Distinct) (hpath : m.path ∉ g.paths) {g' : Graph}
    (h : g.add m = .ok (position, g')) : g'.Distinct := by
  rcases add_of_notMem hpath h with ⟨hmodules, hid⟩
  constructor
  · rw [Graph.paths, hmodules, List.map_append]
    exact List.nodup_append_comm.mp (List.nodup_cons.mpr ⟨hpath, hg.paths⟩)
  · rw [hmodules, List.map_append]
    exact List.nodup_append_comm.mp (List.nodup_cons.mpr ⟨hid, hg.ids⟩)

theorem mem_addNew {known : List Nat} : d ∈ addNew known position ↔ d ∈ known ∨ d = position := by
  unfold addNew
  split
  · rename_i hmem
    constructor
    · exact Or.inl
    · rintro (h | rfl)
      · exact h
      · exact hmem
  · simp

theorem mem_foldl_addNew (positions known : List Nat) (d : Nat) :
    d ∈ positions.foldl addNew known ↔ d ∈ known ∨ d ∈ positions := by
  induction positions generalizing known with
  | nil => simp
  | cons position rest ih =>
    rw [List.foldl_cons, ih, mem_addNew, List.mem_cons, or_assoc]

theorem mem_dependenciesOf {imports : List String} :
    d ∈ g.dependenciesOf imports ↔ ∃ path ∈ imports, g.positionOf? path = some d := by
  rw [dependenciesOf, mem_foldl_addNew, List.mem_filterMap]
  simp

@[simp] theorem paths_link (g : Graph) : g.link.paths = g.paths := by
  simp [link, paths, Function.comp_def]

@[simp] theorem size_link (g : Graph) : g.link.size = g.size := by
  simp [link, size]

@[simp] theorem ids_link (g : Graph) :
    g.link.modules.map Module.id = g.modules.map Module.id := by
  simp [link, Function.comp_def, Module.id]

@[simp] theorem positionOf_link (g : Graph) (path : String) :
    g.link.positionOf? path = g.positionOf? path := by
  simp [link, positionOf?, List.findIdx?_map, Function.comp_def]

theorem Distinct.link (hg : g.Distinct) : g.link.Distinct :=
  ⟨by rw [paths_link]; exact hg.paths, by rw [ids_link]; exact hg.ids⟩

theorem mem_link (h : m ∈ g.link.modules) :
    ∃ source ∈ g.modules, m.path = source.path ∧ m.imports = source.imports ∧
      m.dependencies = g.dependenciesOf m.imports := by
  rw [link, List.mem_map] at h
  rcases h with ⟨source, hsource, rfl⟩
  exact ⟨source, hsource, rfl, rfl, rfl⟩

end Graph
end ScriptBundler
