import ScriptBundler.Config.Format
import ScriptBundler.Project.Files

/-!
# Configuration files

A configuration is kept in the root of its project.  A file that is missing stands
for the defaults.
-/

namespace ScriptBundler

inductive ConfigError where
  | unreadable (path : String) (cause : FileError)
  | invalid (path : String) (fault : Json.Fault)
deriving DecidableEq, Repr

structure LoadedConfig where
  config : Config
  path : String
  /-- Not so if there was no file and the defaults were taken. -/
  fromFile : Bool
deriving DecidableEq, Repr

namespace Config

def fileName : String :=
  "jsbundle.config.json"

/-- Read a configuration file; a missing file stands for the defaults. -/
def load (files : Files) (path : String) : Except ConfigError LoadedConfig :=
  match files.readText path with
  | .ok text =>
      match Config.ofText text with
      | .ok config => .ok ⟨config, path, true⟩
      | .error fault => .error (.invalid path fault)
  | .error .notFound => .ok ⟨Config.default, path, false⟩
  | .error e => .error (.unreadable path e)

def save (c : Config) (files : Files) (path : String) : Except FileError Files :=
  files.writeText path c.toText

def bundlePath (c : Config) : String :=
  FilePath.join c.bundleDir "bundle.js"

end Config
end ScriptBundler
