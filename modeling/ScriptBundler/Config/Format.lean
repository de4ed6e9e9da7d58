import ScriptBundler.Config
import ScriptBundler.Json.Value
import ScriptBundler.Json.Record

/-!
# Configuration as text

Configurations are JSON.  Fields that are left out keep their default values
and fields with other names are passed over.
-/

namespace ScriptBundler

open Json

namespace CacheConfig

def format : RecordFormat CacheConfig where
  fields :=
    [⟨"enable", fun c => return { c with enable := ← Reader.bool }⟩,
     ⟨"dirName", fun c => return { c with dirName := ← Reader.string }⟩]
  start := Config.default.permanentCache
  allowsMissing := true
  allowsUnknown := true

def toJson (c : CacheConfig) : Json :=
  .object [("enable", .bool c.enable), ("dirName", .string c.dirName)]

end CacheConfig

namespace ServerConfig

def format : RecordFormat ServerConfig where
  fields :=
    [⟨"enable", fun c => return { c with enable := ← Reader.bool }⟩,
     ⟨"port", fun c => return { c with port := ← Reader.natural 65536 }⟩]
  start := Config.default.devServer
  allowsMissing := true
  allowsUnknown := true

def toJson (c : ServerConfig) : Json :=
  .object [("enable", .bool c.enable), ("port", .number c.port)]

end ServerConfig

namespace Config

def readVariable (env : Table String) (name : String) : Reader (Table String) := do
  Reader.expect ':'
  return env.insert name (← Reader.string)

def format : RecordFormat Config where
  fields :=
    [⟨"entry", fun c => return { c with entry := ← Reader.string }⟩,
     ⟨"bundleDir", fun c => return { c with bundleDir := ← Reader.string }⟩,
     ⟨"templateHtml", fun c => return { c with templateHtml := ← Reader.string }⟩,
     ⟨"watchFiles", fun c => return { c with watchFiles := ← Reader.bool }⟩,
     ⟨"permanentCache",
       fun c => return { c with permanentCache := ← CacheConfig.format.read }⟩,
     ⟨"devServer", fun c => return { c with devServer := ← ServerConfig.format.read }⟩,
     ⟨"env", fun c => return { c with env := ← Reader.object readVariable Table.empty }⟩]
  start := Config.default
  allowsMissing := true
  allowsUnknown := true

def ofText (text : String) : Except Fault Config :=
  Reader.run format.read text

def toJson (c : Config) : Json :=
  .object
    [("entry", .string c.entry),
     ("bundleDir", .string c.bundleDir),
     ("templateHtml", .string c.templateHtml),
     ("watchFiles", .bool c.watchFiles),
     ("permanentCache", c.permanentCache.toJson),
     ("devServer", c.devServer.toJson),
     ("env", .object (c.env.entries.map (fun entry => (entry.1, .string entry.2))))]

def toText (c : Config) : String :=
  c.toJson.pretty ++ "\n"

end Config
end ScriptBundler
