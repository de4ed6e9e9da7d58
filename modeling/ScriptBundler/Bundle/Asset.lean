import ScriptBundler.Module.Path
import ScriptBundler.Project.Path

/-!
# Assets

Files that are not scripts are copied into the output directory.  The module of
such a file is the name of the copy.
-/

namespace ScriptBundler
namespace Asset

/-- Whether a path names a script, which any spelling of its extension does. -/
def isScript (path : String) : Bool :=
  match FilePath.extension? path with
  | some extension => extension.map Char.toLower == "js"
  | none => false

/-- The name of the copy: the module id with the extension of the file. -/
def fileName (path : String) : String :=
  match FilePath.extension? path with
  | some extension => ModulePath.id path ++ "." ++ extension
  | none => ModulePath.id path

def code (path : String) : String :=
  "moduleFns." ++ ModulePath.id path ++ "=function()\x7breturn \x7bexports:'" ++ fileName path ++
    "',es6:\x7bdefault:'" ++ fileName path ++ "'\x7d,hasES6Exports:true\x7d;\x7d;"

end Asset
end ScriptBundler
