/-!
# Version of the program

What the program says about itself.
-/

namespace ScriptBundler

def programName : String :=
  "jsbundle"

def version : String :=
  "0.2.0"

def versionLine : String :=
  programName ++ " " ++ version

end ScriptBundler
