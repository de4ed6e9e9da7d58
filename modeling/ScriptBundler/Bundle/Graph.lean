import ScriptBundler.Module.Path

/-!
# Graph of modules

The modules of a bundle in the order in which they were found.  No two of them
have the same path or the same id.
-/

namespace ScriptBundler

inductive ModuleKind where
  | script | asset
deriving DecidableEq, Repr

structure Module where
  path : String
  code : String
  /-- Paths of the modules it names, in order and with repetitions. -/
  imports : List String
  kind : ModuleKind
  /-- Positions of the modules it names, once it has been linked. -/
  dependencies : List Nat
deriving DecidableEq, Repr

namespace Module

def unlinked (path code : String) (imports : List String) (kind : ModuleKind) : Module :=
  ⟨path, code, imports, kind, []⟩

def id (m : Module) : String :=
  ModulePath.id m.path

end Module

structure Graph where
  modules : List Module
deriving DecidableEq, Repr

/-- A path whose id is already taken by another path. -/
structure Collision where
  id : String
  first : String
  second : String
deriving DecidableEq, Repr

namespace Graph

def empty : Graph :=
  ⟨[]⟩

instance : Inhabited Graph :=
  ⟨empty⟩

def size (g : Graph) : Nat :=
  g.modules.length

def get? (g : Graph) (position : Nat) : Option Module :=
  g.modules[position]?

def paths (g : Graph) : List String :=
  g.modules.map Module.path

def positionOf? (g : Graph) (path : String) : Option Nat :=
  g.modules.findIdx? (fun m => m.path == path)

/-- Add a module.  Gives its position, which for a known path is that of the
module added first. -/
def add (g : Graph) (m : Module) : Except Collision (Nat × Graph) :=
  match g.positionOf? m.path with
  | some position => .ok (position, g)
  | none =>
      match g.modules.find? (fun other => other.id == m.id) with
      | some other => .error ⟨m.id, other.path, m.path⟩
      | none => .ok (g.size, ⟨g.modules ++ [m]⟩)

def addNew (known : List Nat) (position : Nat) : List Nat :=
  if position ∈ known then known else known ++ [position]

/-- Positions of the imported modules, each once, in the order of their first
import.  Paths that are not in the graph are left out. -/
def dependenciesOf (g : Graph) (imports : List String) : List Nat :=
  (imports.filterMap g.positionOf?).foldl addNew []

def link (g : Graph) : Graph :=
  ⟨g.modules.map (fun m => { m with dependencies := g.dependenciesOf m.imports })⟩

end Graph
end ScriptBundler
