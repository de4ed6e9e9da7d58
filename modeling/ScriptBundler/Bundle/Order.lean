import ScriptBundler.Bundle.Graph

/-!
# Order of modules

Modules are put in an order in which each comes after the modules it depends
on, as far as there is one.  Modules that wait for a cycle come last.
-/

namespace ScriptBundler

structure Waiting where
  position : Nat
  /-- The dependencies that have no place yet. -/
  missing : List Nat
deriving DecidableEq, Repr

namespace Waiting

def without (w : Waiting) (position : Nat) : Waiting :=
  { w with missing := w.missing.filter (· != position) }

def isReady (w : Waiting) : Bool :=
  w.missing.isEmpty

end Waiting

structure Order where
  /-- Every module once. -/
  order : List Nat
  /-- The modules on a cycle or behind one. -/
  cyclic : List Nat
deriving DecidableEq, Repr

namespace Order

def update (next : Nat) (waiting : List Waiting) : List Waiting :=
  waiting.map (fun w => w.without next)

/-- Place the modules that are ready one after the other.  Those that become
ready line up behind them; those that never do are left over. -/
def place : List Nat → List Waiting → List Nat × List Nat
  | [], waiting => ([], waiting.map Waiting.position)
  | next :: ready, waiting =>
      let (placed, left) :=
        place (ready ++ ((update next waiting).filter Waiting.isReady).map Waiting.position)
          ((update next waiting).filter (fun w => !w.isReady))
      (next :: placed, left)
termination_by ready waiting => ready.length + waiting.length
decreasing_by
  have h := (List.filter_append_perm Waiting.isReady (update next waiting)).length_eq
  have hlength : (update next waiting).length = waiting.length := by simp [update]
  simp only [List.length_map, List.length_append, List.length_cons] at h ⊢
  omega

end Order

namespace Graph

def waiting (g : Graph) : List Waiting :=
  g.modules.zipIdx.map (fun entry => ⟨entry.2, entry.1.dependencies⟩)

def order (g : Graph) : Order :=
  let (placed, left) :=
    Order.place ((g.waiting.filter Waiting.isReady).map Waiting.position)
      (g.waiting.filter (fun w => !w.isReady))
  ⟨placed ++ left, left⟩

end Graph
end ScriptBundler
