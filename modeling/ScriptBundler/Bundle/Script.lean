import ScriptBundler.Table
import ScriptBundler.Json.Value
import ScriptBundler.Bundle.Graph

/-!
# The bundle

A bundle is one script: a head with the tables and the functions that modules
use, the factories of all modules, and a tail that builds the modules in order.
-/

namespace ScriptBundler
namespace Bundle

def linker : String :=
  "function require(m)\x7breturn m.exports;\x7d" ++
    "function requireES6(m,name)\x7b" ++
    "if(m.hasES6Exports)return name==='*'?m.es6:m.es6[name];" ++
    "return name==='*'||name==='default'?m.exports:m.exports[name];\x7d"

def environment (env : Table String) : String :=
  (Json.object (env.sorted.map (fun entry => (entry.1, .string entry.2)))).compact

def head (env : Table String) : String :=
  "(function()\x7bvar moduleFns=\x7b\x7d,modules=\x7b\x7d,process=\x7benv:" ++
    environment env ++ "\x7d;" ++ linker ++ "\n"

def instantiate (id : String) : String :=
  "modules." ++ id ++ "=moduleFns." ++ id ++ "();"

/-- The order in which modules are built: as given, but with the entry at the
end. -/
def buildOrder (order : List Nat) (entry : Nat) : List Nat :=
  order.filter (· != entry) ++ [entry]

/-- The end of a bundle.  Positions outside of the graph are passed over. -/
def tail (g : Graph) (order : List Nat) (entry : Nat) : String :=
  String.join (((buildOrder order entry).filterMap g.get?).map
      (fun m => instantiate m.id)) ++
    "\n\x7d)();\n"

def script (g : Graph) (order : List Nat) (entry : Nat) (env : Table String) : String :=
  head env ++ String.join (g.modules.map (fun m => m.code ++ "\n")) ++ tail g order entry

end Bundle
end ScriptBundler
