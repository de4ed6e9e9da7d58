import ScriptBundler.Table
import ScriptBundler.Project.Timestamp

/-!
# Cache of compiled files

Compiled scripts are kept by their paths, and are good as long as the time of
modification of the file stays the same.
-/

namespace ScriptBundler

structure CachedFile where
  code : String
  imports : List String
  modified : Timestamp
deriving DecidableEq, Repr

abbrev FileCache := Table CachedFile

namespace FileCache

/-- The compiled script of a path, if it was made at the given time. -/
def find? (cache : FileCache) (path : String) (modified : Timestamp) : Option CachedFile :=
  (cache.get? path).filter (fun file => decide (file.modified = modified))

end FileCache
end ScriptBundler
