import Mathlib.Data.List.Basic
import Mathlib.Data.List.Nodup
import ScriptBundler.Table
import ScriptBundler.Proofs.Graph

/-!
# Graphs in the making

A graph is made by adding modules and linking them, in any order.  Whatever has
been done to it, no two of its modules share a path or an id, and dependencies
are positions of modules, each named once.

A graph can be kept with two indexes, one of its paths and one of its ids, so
that no list is searched.  The indexes and the list of modules stay inverse to
each other, and every answer is the one that the list alone would give.
-/

namespace ScriptBundler
namespace Graph

inductive Operation where
  | add (path code : String) (imports : List String) (kind : ModuleKind)
  | link
deriving DecidableEq, Repr

/-- A module that cannot be added leaves the graph as it was. -/
def perform (g : Graph) : Operation → Graph
  | .add path code imports kind =>
    match g.add (.unlinked path code imports kind) with
    | .ok (_, g') => g'
    | .error _ => g
  | .link => g.link

def run (operations : List Operation) : Graph :=
  operations.foldl perform .empty

/-- What holds of the empty graph and is kept by every operation holds however
a graph was made. -/
theorem run_induction {p : Graph → Prop} (hempty : p .empty) (hstep : ∀ g o, p g → p (g.perform o))
    (operations : List Operation) : p (run operations) := by
  have hfold : ∀ operations : List Operation, ∀ g, p g → p (operations.foldl perform g) := by
    intro operations
    induction operations with
    | nil => exact fun _ hg => hg
    | cons o operations ih => exact fun g hg => ih _ (hstep g o hg)
  exact hfold operations .empty hempty

theorem add_cases (g : Graph) (m : Module) :
    (∃ position, g.positionOf? m.path = some position ∧ g.add m = .ok (position, g)) ∨
    (m.path ∉ g.paths ∧ ∃ other ∈ g.modules, other.id = m.id ∧
      g.add m = .error ⟨m.id, other.path, m.path⟩) ∨
    (m.path ∉ g.paths ∧ m.id ∉ g.modules.map Module.id ∧
      g.add m = .ok (g.size, ⟨g.modules ++ [m]⟩)) := by
  unfold add
  cases hposition : g.positionOf? m.path with
  | some position => exact .inl ⟨position, rfl, rfl⟩
  | none =>
    have hpath := positionOf_eq_none_iff.mp hposition
    cases hfind : g.modules.find? (fun other => other.id == m.id) with
    | some other =>
      have hid := List.find?_some hfind
      exact .inr (.inl ⟨hpath, other, List.mem_of_find?_eq_some hfind, eq_of_beq hid, rfl⟩)
    | none =>
      refine .inr (.inr ⟨hpath, ?_, rfl⟩)
      rw [List.mem_map]
      rintro ⟨other, hother, hid⟩
      exact List.find?_eq_none.mp hfind other hother (beq_iff_eq.mpr hid)

theorem addNew_eq (known : List Nat) (position : Nat) :
    addNew known position = known ++ [position].removeAll known := by
  unfold addNew
  by_cases hmem : position ∈ known <;> simp [hmem, List.removeAll]

theorem foldl_addNew_eq_eraseDups (positions : List Nat) :
    positions.foldl addNew [] = positions.eraseDups := by
  have hfold : ∀ positions known : List Nat,
      positions.foldl addNew known = known ++ (positions.removeAll known).eraseDups := by
    intro positions
    induction positions with
    | nil => simp [List.removeAll]
    | cons position positions ih =>
      intro known
      rw [List.foldl_cons, ih, addNew_eq]
      by_cases hmem : position ∈ known
      · simp [hmem, List.removeAll]
      · simp [hmem, List.removeAll, List.eraseDups_cons, List.filter_filter,
          Bool.beq_eq_decide_eq, Bool.and_comm]
  simpa [List.removeAll] using hfold positions []

/-!
# Regular graphs

Every operation keeps paths and ids apart, and dependencies inside of the graph.
-/

/-- No two modules share a path or an id, and dependencies are positions of
modules, each named once. -/
structure Regular (g : Graph) : Prop extends Distinct g where
  inside : ∀ m ∈ g.modules, ∀ d ∈ m.dependencies, d < g.size
  once : ∀ m ∈ g.modules, m.dependencies.Nodup

theorem regular_empty : Regular .empty :=
  ⟨distinct_empty, nofun, nofun⟩

theorem nodup_foldl_addNew (positions : List Nat) {known : List Nat} (h : known.Nodup) :
    (positions.foldl addNew known).Nodup := by
  induction positions generalizing known with
  | nil => exact h
  | cons position positions ih =>
    refine ih ?_
    unfold addNew
    split
    · exact h
    · rename_i hnew
      exact List.nodup_append_comm.mp (List.nodup_cons.mpr ⟨hnew, h⟩)

theorem lt_size_of_mem_dependenciesOf {g : Graph} {imports : List String} {d : Nat}
    (h : d ∈ g.dependenciesOf imports) : d < g.size := by
  rcases mem_dependenciesOf.mp h with ⟨path, _, hposition⟩
  rcases get_of_positionOf hposition with ⟨m, hm, _⟩
  exact lt_size_of_get hm

theorem Regular.link {g : Graph} (hg : g.Regular) : g.link.Regular := by
  refine ⟨hg.toDistinct.link, ?_, ?_⟩
  · intro m hm d hd
    rcases mem_link hm with ⟨_, _, _, _, hdependencies⟩
    rw [size_link]
    rw [hdependencies] at hd
    exact lt_size_of_mem_dependenciesOf hd
  · intro m hm
    rcases mem_link hm with ⟨_, _, _, _, hdependencies⟩
    rw [hdependencies]
    exact nodup_foldl_addNew _ List.nodup_nil

theorem Regular.push {g : Graph} (hg : g.Regular) {m : Module} (hpath : m.path ∉ g.paths)
    (hadd : g.add m = .ok (g.size, ⟨g.modules ++ [m]⟩)) (hm : m.dependencies = []) :
    (⟨g.modules ++ [m]⟩ : Graph).Regular := by
  refine ⟨hg.toDistinct.add hpath hadd, ?_, ?_⟩
  · intro other hother d hd
    rcases List.mem_append.mp hother with hold | hnew
    · have hlt := hg.inside other hold d hd
      rw [size, List.length_append]
      exact Nat.lt_add_right 1 hlt
    · rw [List.mem_singleton.mp hnew, hm] at hd
      cases hd
  · intro other hother
    rcases List.mem_append.mp hother with hold | hnew
    · exact hg.once other hold
    · rw [List.mem_singleton.mp hnew, hm]
      exact List.nodup_nil

theorem Regular.perform {g : Graph} (hg : g.Regular) (o : Operation) : (g.perform o).Regular := by
  cases o with
  | link => exact hg.link
  | add path code imports kind =>
    rw [Graph.perform]
    rcases g.add_cases (.unlinked path code imports kind) with
      ⟨_, _, hadd⟩ | ⟨_, _, _, _, hadd⟩ | ⟨hpath, _, hadd⟩
    · rw [hadd]
      exact hg
    · rw [hadd]
      exact hg
    · rw [hadd]
      exact hg.push hpath hadd rfl

theorem regular_run (operations : List Operation) : (run operations).Regular :=
  run_induction regular_empty (fun _ o hg => hg.perform o) operations

end Graph

/-!
# Indexes

With two tables, by path and by name, a graph goes the same way as one that is
searched through.
-/

structure Registered extends Module where
  name : String
deriving DecidableEq, Repr

def Registered.make (path code : String) (imports : List String) (kind : ModuleKind) :
    Registered :=
  ⟨.unlinked path code imports kind, ModulePath.id path⟩

/-- A graph with the positions of its paths and of its names. -/
structure Indexed where
  modules : List Registered
  positions : Table Nat
  names : Table Nat
deriving DecidableEq, Repr

namespace Indexed

def empty : Indexed :=
  ⟨[], Table.empty, Table.empty⟩

def graph (x : Indexed) : Graph :=
  ⟨x.modules.map Registered.toModule⟩

def add (x : Indexed) (m : Registered) : Except Collision Nat × Indexed :=
  match x.positions.get? m.path with
  | some position => (.ok position, x)
  | none =>
    match x.names.get? m.name with
    | some other =>
      (.error ⟨m.name, (x.modules[other]?.map (·.path)).getD "", m.path⟩, x)
    | none =>
      (.ok x.modules.length,
        ⟨x.modules ++ [m], x.positions.insert m.path x.modules.length,
          x.names.insert m.name x.modules.length⟩)

def link (x : Indexed) : Indexed :=
  { x with
    modules := x.modules.map fun m =>
      { m with dependencies := (m.imports.filterMap x.positions.get?).foldl Graph.addNew [] } }

def perform (x : Indexed) : Graph.Operation → Indexed
  | .add path code imports kind => (x.add (.make path code imports kind)).2
  | .link => x.link

def run (operations : List Graph.Operation) : Indexed :=
  operations.foldl perform .empty

/-- The indexes are inverse to the list of modules, and modules are registered
under the ids of their paths. -/
structure Consistent (x : Indexed) : Prop where
  positions : ∀ path i, x.positions.get? path = some i ↔
    ∃ m, x.modules[i]? = some m ∧ m.path = path
  names : ∀ name i, x.names.get? name = some i ↔
    ∃ m, x.modules[i]? = some m ∧ m.name = name
  named : ∀ m ∈ x.modules, m.name = ModulePath.id m.path

variable {x : Indexed} {m : Registered}

theorem get?_insert_iff {α : Type} {t : Table Nat} {items : List α} {a : α} (key : α → String)
    (h : ∀ k i, t.get? k = some i ↔ ∃ b, items[i]? = some b ∧ key b = k)
    (hnew : t.get? (key a) = none) (k : String) (i : Nat) :
    (t.insert (key a) items.length).get? k = some i ↔
      ∃ b, (items ++ [a])[i]? = some b ∧ key b = k := by
  rw [Table.get?_insert]
  rcases Nat.lt_trichotomy i items.length with hlt | rfl | hgt
  · rw [List.getElem?_append_left hlt]
    split
    · rename_i hk
      rw [← h, hk, hnew]
      simp [Nat.ne_of_gt hlt]
    · exact h k i
  · rw [List.getElem?_append_right (Nat.le_refl _), Nat.sub_self]
    split
    · rename_i hk
      simp [hk]
    · rename_i hk
      rw [h, List.getElem?_eq_none (Nat.le_refl _)]
      simp [Ne.symm hk]
  · rw [List.getElem?_eq_none (by rw [List.length_append]; exact hgt)]
    split
    · simp [Nat.ne_of_lt hgt]
    · rw [h, List.getElem?_eq_none (Nat.le_of_lt hgt)]

theorem consistent_empty : Consistent .empty :=
  ⟨by simp [empty, Table.get?, Table.empty], by simp [empty, Table.get?, Table.empty], nofun⟩

section
variable (hx : x.Consistent)
include hx

theorem Consistent.positionOf_graph (hg : x.graph.Distinct) (path : String) :
    x.graph.positionOf? path = x.positions.get? path := by
  refine Option.ext fun i => ?_
  rw [Graph.positionOf_eq_some_iff hg, hx.positions]
  simp [Graph.get?, graph]

theorem Consistent.ids_graph : x.graph.modules.map Module.id = x.modules.map (·.name) := by
  rw [graph, List.map_map]
  exact List.map_congr_left fun m hm => (hx.named m hm).symm

theorem Consistent.names_eq_none {name : String} (h : name ∉ x.modules.map (·.name)) :
    x.names.get? name = none := by
  rw [Option.eq_none_iff_forall_ne_some]
  intro i hi
  rcases (hx.names name i).mp hi with ⟨other, hother, hname⟩
  exact h (List.mem_map.mpr ⟨other, List.mem_of_getElem? hother, hname⟩)

theorem Consistent.link : x.link.Consistent := by
  have hget : ∀ {key : Registered → String} {k : String} {i : Nat},
      (∀ m dependencies, key { m with dependencies := dependencies } = key m) →
      ((∃ m, x.link.modules[i]? = some m ∧ key m = k) ↔
        ∃ m, x.modules[i]? = some m ∧ key m = k) := by
    intro key k i hkey
    simp [Indexed.link, hkey]
  constructor
  · intro path i
    rw [hget fun _ _ => rfl]
    exact hx.positions path i
  · intro name i
    rw [hget fun _ _ => rfl]
    exact hx.names name i
  · intro m hm
    rcases List.mem_map.mp hm with ⟨source, hsource, rfl⟩
    exact hx.named source hsource

theorem Consistent.graph_link (hg : x.graph.Distinct) : x.link.graph = x.graph.link := by
  have hdependencies : ∀ imports : List String, x.graph.dependenciesOf imports =
      (imports.filterMap x.positions.get?).foldl Graph.addNew [] := by
    intro imports
    rw [Graph.dependenciesOf, funext (hx.positionOf_graph hg)]
  simp only [Graph.link, hdependencies]
  simp [graph, Indexed.link]

theorem Consistent.add_cases (hg : x.graph.Distinct) (hm : m.name = ModulePath.id m.path) :
    (∃ position, x.graph.add m.toModule = .ok (position, x.graph) ∧
      x.add m = (.ok position, x)) ∨
    (m.path ∉ x.graph.paths ∧ ∃ other ∈ x.modules, other.name = m.name ∧
      x.graph.add m.toModule = .error ⟨m.name, other.path, m.path⟩ ∧
      x.add m = (.error ⟨m.name, other.path, m.path⟩, x)) ∨
    (m.path ∉ x.graph.paths ∧ m.name ∉ x.modules.map (·.name) ∧
      x.graph.add m.toModule = .ok (x.modules.length, ⟨x.graph.modules ++ [m.toModule]⟩) ∧
      x.add m = (.ok x.modules.length, ⟨x.modules ++ [m],
        x.positions.insert m.path x.modules.length, x.names.insert m.name x.modules.length⟩)) := by
  have hposition := hx.positionOf_graph hg m.path
  have hid : m.toModule.id = m.name := hm.symm
  rcases x.graph.add_cases m.toModule with
    ⟨position, hknown, hadd⟩ | ⟨hpath, other, hother, hsame, hadd⟩ | ⟨hpath, hnew, hadd⟩
  · refine .inl ⟨position, hadd, ?_⟩
    rw [add, ← hposition, hknown]
  · refine .inr (.inl ⟨hpath, ?_⟩)
    rcases List.mem_map.mp hother with ⟨source, hsource, rfl⟩
    have hname : source.name = m.name := by
      rw [hx.named source hsource, ← hid]
      exact hsame
    rcases List.mem_iff_getElem?.mp hsource with ⟨i, hi⟩
    refine ⟨source, hsource, hname, by rw [hadd, hid], ?_⟩
    rw [add, ← hposition, Graph.positionOf_eq_none_iff.mpr hpath,
      (hx.names m.name i).mpr ⟨source, hi, hname⟩]
    simp [hi]
  · rw [hx.ids_graph, hid] at hnew
    refine .inr (.inr ⟨hpath, hnew, ?_, ?_⟩)
    · rw [hadd]
      simp [Graph.size, graph]
    · rw [add, ← hposition, Graph.positionOf_eq_none_iff.mpr hpath, hx.names_eq_none hnew]

theorem Consistent.add (hg : x.graph.Distinct) (hm : m.name = ModulePath.id m.path) :
    (x.add m).2.Consistent := by
  rcases hx.add_cases hg hm with ⟨_, _, hadd⟩ | ⟨_, _, _, _, _, hadd⟩ | ⟨hpath, hname, _, hadd⟩
  · rw [hadd]
    exact hx
  · rw [hadd]
    exact hx
  · rw [hadd]
    have hposition : x.positions.get? m.path = none := by
      rw [← hx.positionOf_graph hg]
      exact Graph.positionOf_eq_none_iff.mpr hpath
    refine ⟨get?_insert_iff (fun m : Registered => m.path) hx.positions hposition,
      get?_insert_iff (fun m : Registered => m.name) hx.names (hx.names_eq_none hname), ?_⟩
    intro other hother
    rcases List.mem_append.mp hother with hold | hnew
    · exact hx.named other hold
    · rw [List.mem_singleton.mp hnew]
      exact hm

/-- An operation keeps the indexes consistent and does to the modules what it
does to the graph. -/
theorem Consistent.perform (hg : x.graph.Distinct) (o : Graph.Operation) :
    (x.perform o).Consistent ∧ (x.perform o).graph = x.graph.perform o := by
  cases o with
  | link => exact ⟨hx.link, hx.graph_link hg⟩
  | add path code imports kind =>
    refine ⟨hx.add hg rfl, ?_⟩
    rw [Indexed.perform, Graph.perform]
    rcases hx.add_cases (m := .make path code imports kind) hg rfl with
      ⟨_, hgraph, hadd⟩ | ⟨_, _, _, _, hgraph, hadd⟩ | ⟨_, _, hgraph, hadd⟩
    · rw [hadd, show x.graph.add (.unlinked path code imports kind) = _ from hgraph]
    · rw [hadd, show x.graph.add (.unlinked path code imports kind) = _ from hgraph]
    · rw [hadd, show x.graph.add (.unlinked path code imports kind) = _ from hgraph]
      simp [graph]

end

theorem consistent_run (operations : List Graph.Operation) :
    (run operations).Consistent ∧ (run operations).graph = Graph.run operations := by
  have hfold : ∀ (operations : List Graph.Operation) (x : Indexed),
      x.Consistent → x.graph.Regular →
      (operations.foldl perform x).Consistent ∧
        (operations.foldl perform x).graph = operations.foldl Graph.perform x.graph := by
    intro operations
    induction operations with
    | nil => exact fun x hx _ => ⟨hx, rfl⟩
    | cons o operations ih =>
      intro x hx hg
      rcases hx.perform hg.toDistinct o with ⟨hperform, hgraph⟩
      have hregular := hg.perform o
      rw [← hgraph] at hregular
      rw [List.foldl_cons, List.foldl_cons, ← hgraph]
      exact ih (x.perform o) hperform hregular
  exact hfold operations .empty consistent_empty Graph.regular_empty

/-- The indexes are inverse to the modules of a graph, paths and names are
unique, and dependencies are positions, each named once.  Linking makes them the
first occurrences of the imports that are known. -/
structure Represents (x : Indexed) (g : Graph) : Prop extends Consistent x where
  graph_eq : x.graph = g
  paths_nodup : (x.modules.map (·.path)).Nodup
  names_nodup : (x.modules.map (·.name)).Nodup
  inside : ∀ m ∈ x.modules, ∀ d ∈ m.dependencies, d < x.modules.length
  once : ∀ m ∈ x.modules, m.dependencies.Nodup
  linked : ∀ m ∈ x.link.modules,
    m.dependencies = (m.imports.filterMap x.positions.get?).eraseDups

/-- A module is refused exactly if its path is new and its name is taken by
another path.  Then, and if its path is known, nothing changes.  Otherwise it is
put behind the modules that are there. -/
structure Adds (x : Indexed) (m : Registered) : Prop where
  answer : (x.add m).1 = (x.graph.add m.toModule).map Prod.fst
  fails_iff : (∃ c, (x.add m).1 = .error c) ↔
    m.path ∉ x.modules.map (·.path) ∧ ∃ other ∈ x.modules, other.path ≠ m.path ∧ other.name = m.name
  keeps : (∃ c, (x.add m).1 = .error c) ∨ m.path ∈ x.modules.map (·.path) → (x.add m).2 = x
  appends : ∀ i, (x.add m).1 = .ok i → m.path ∉ x.modules.map (·.path) →
    i = x.modules.length ∧ (x.add m).2.modules = x.modules ++ [m]

theorem paths_graph (x : Indexed) : x.graph.paths = x.modules.map (·.path) := by
  simp [Graph.paths, graph]

theorem Consistent.adds (hx : x.Consistent) (hg : x.graph.Distinct)
    (hm : m.name = ModulePath.id m.path) : x.Adds m := by
  rcases hx.add_cases hg hm with
    ⟨position, hgraph, hadd⟩ | ⟨hpath, other, hother, hname, hgraph, hadd⟩ |
      ⟨hpath, hname, hgraph, hadd⟩
  · have hknown : m.path ∈ x.modules.map (·.path) := by
      rw [← paths_graph]
      by_contra hnew
      rcases (Graph.add_of_notMem hnew hgraph).1 with hsame
      exact absurd (congrArg List.length hsame) (by simp)
    constructor
    · rw [hadd, hgraph]
      rfl
    · rw [hadd]
      exact ⟨nofun, fun h => absurd hknown h.1⟩
    · rw [hadd]
      exact fun _ => rfl
    · exact fun _ _ h => absurd hknown h
  · rw [paths_graph] at hpath
    constructor
    · rw [hadd, hgraph]
      rfl
    · rw [hadd]
      refine ⟨fun _ => ⟨hpath, other, hother, ?_, hname⟩, fun _ => ⟨_, rfl⟩⟩
      rintro hsame
      exact hpath (hsame ▸ List.mem_map_of_mem hother)
    · rw [hadd]
      exact fun _ => rfl
    · rw [hadd]
      exact nofun
  · rw [paths_graph] at hpath
    constructor
    · rw [hadd, hgraph]
      rfl
    · rw [hadd]
      refine ⟨nofun, ?_⟩
      rintro ⟨_, other, hother, _, hsame⟩
      exact absurd (List.mem_map.mpr ⟨other, hother, hsame⟩) hname
    · rw [hadd]
      rintro (⟨_, h⟩ | h)
      · cases h
      · exact absurd h hpath
    · rw [hadd]
      rintro i hi _
      cases hi
      exact ⟨rfl, rfl⟩

/-- However a graph was made, its indexes represent it, and modules are added to
it by the rules. -/
theorem run_represents (operations : List Graph.Operation) :
    (run operations).Represents (Graph.run operations) ∧
      ∀ path code imports kind, (run operations).Adds (.make path code imports kind) := by
  rcases consistent_run operations with ⟨hx, hgraph⟩
  have hg := Graph.regular_run operations
  rw [← hgraph] at hg
  refine ⟨⟨hx, hgraph, ?_, ?_, ?_, ?_, ?_⟩, fun _ _ _ _ => hx.adds hg.toDistinct rfl⟩
  · rw [← paths_graph]
    exact hg.paths
  · rw [← hx.ids_graph]
    exact hg.ids
  · intro m hm d hd
    have hlt := hg.inside m.toModule (List.mem_map_of_mem hm) d hd
    simpa [Graph.size, graph] using hlt
  · intro m hm
    exact hg.once m.toModule (List.mem_map_of_mem hm)
  · intro m hm
    rcases List.mem_map.mp hm with ⟨source, _, rfl⟩
    exact Graph.foldl_addNew_eq_eraseDups _

end Indexed
end ScriptBundler
