import ScriptBundler.Bundle.Cache
import ScriptBundler.Json.Value
import ScriptBundler.Json.Record
import ScriptBundler.Project.Files

/-!
# The cache between runs

The cache is kept as JSON in a file.  A file that does not hold a whole cache
counts as no cache at all.
-/

namespace ScriptBundler

open Json

namespace Timestamp

def format : RecordFormat Timestamp where
  fields :=
    [⟨"secs_since_epoch",
       fun t => return { t with seconds := ← Reader.natural (Nat.pow 2 64) }⟩,
     ⟨"nanos_since_epoch",
       fun t => return { t with nanoseconds := ← Reader.natural (Nat.pow 2 32) }⟩]
  start := ⟨0, 0⟩
  allowsMissing := false
  allowsUnknown := false

def read : Reader Timestamp := do
  let parts ← format.read
  let t := ofParts parts.seconds parts.nanoseconds
  if t.isRepresentable then return t else throw .mismatched

def toJson (t : Timestamp) : Json :=
  .object [("secs_since_epoch", .number t.seconds), ("nanos_since_epoch", .number t.nanoseconds)]

end Timestamp

namespace CachedFile

def format : RecordFormat CachedFile where
  fields :=
    [⟨"code", fun f => return { f with code := ← Reader.string }⟩,
     ⟨"imports", fun f => return { f with imports := ← Reader.list Reader.string }⟩,
     ⟨"modified", fun f => return { f with modified := ← Timestamp.read }⟩]
  start := ⟨"", [], ⟨0, 0⟩⟩
  allowsMissing := false
  allowsUnknown := true

def toJson (f : CachedFile) : Json :=
  .object
    [("code", .string f.code), ("imports", .strings f.imports), ("modified", f.modified.toJson)]

end CachedFile

namespace FileCache

def readEntry (cache : FileCache) (path : String) : Reader FileCache := do
  Reader.expect ':'
  return cache.insert path (← CachedFile.format.read)

def format : RecordFormat FileCache where
  fields := [⟨"files", fun _ => Reader.object readEntry Table.empty⟩]
  start := Table.empty
  allowsMissing := false
  allowsUnknown := true

def ofText (text : String) : Except Fault FileCache :=
  Reader.run format.read text

def toText (cache : FileCache) : String :=
  (Json.object
    [("files", .object (cache.entries.map (fun entry => (entry.1, entry.2.toJson))))]).compact

def fileName : String :=
  "cache.json"

/-- Read the cache of a directory; empty if there is none or it is damaged. -/
def load (files : Files) (dir : String) : FileCache :=
  match files.readText (FilePath.join dir fileName) with
  | .error _ => Table.empty
  | .ok text =>
      match ofText text with
      | .ok cache => cache
      | .error _ => Table.empty

/-- Write the cache into a directory, which is made if it is missing.  Every cache has
a text: the only times that could not be written are those before the epoch, which
are not represented. -/
def save (cache : FileCache) (files : Files) (dir : String) : Files × Option FileError :=
  match files.makeDirectories dir with
  | (files, some e) => (files, some e)
  | (files, none) =>
      match files.writeText (FilePath.join dir fileName) cache.toText with
      | .ok files => (files, none)
      | .error e => (files, some e)

end FileCache
end ScriptBundler
