import ScriptBundler.Module.Source
import ScriptBundler.Bundle.Graph
import ScriptBundler.Project.Files

/-!
# Failures of a build

A build fails with a list of errors.  Each has a message to be read and a code that
does not change.
-/

namespace ScriptBundler

inductive TemplateFault where
  | unreadable (cause : FileError)
  | endlessBody
deriving DecidableEq, Repr

namespace TemplateFault

def message : TemplateFault → String
  | unreadable cause => cause.message
  | endlessBody => "can't find the end of <body>"

end TemplateFault

inductive BundleError where
  | file (cause : FileError)
  | load (cause : LoadError)
  | missing (path : String)
  | collision (cause : Collision)
  | template (path : String) (cause : TemplateFault)

namespace BundleError

def message : BundleError → String
  | file cause => "IO error: " ++ cause.message
  | load cause => cause.message
  | missing path => "Error loading file " ++ path ++ ":\nCannot find file"
  | collision cause =>
      "Module id " ++ cause.id ++ " is shared by " ++ cause.first ++ " and " ++ cause.second
  | template path cause => "Invalid HTML template " ++ path ++ ": " ++ cause.message

def code : BundleError → String
  | file _ => "IO_ERROR"
  | load _ => "PARSE_ERROR"
  | missing _ => "FILE_NOT_FOUND"
  | collision _ => "MODULE_ID_COLLISION"
  | template _ _ => "TEMPLATE_INVALID"

def listMessage (errors : List BundleError) : String :=
  "\n".intercalate (errors.map message)

end BundleError
end ScriptBundler
