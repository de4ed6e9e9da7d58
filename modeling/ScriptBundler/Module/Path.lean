import ScriptBundler.Text.Split

/-!
# Module paths

A module is known by its path from the root of the project, and in the bundle
by an id made from that path.  The path that a specifier names is found by
looking at the texts alone.
-/

namespace ScriptBundler
namespace ModulePath

/-- The id of a module: slashes, points and dashes of its path become
underscores. -/
def id (path : String) : String :=
  path.map (fun c => if c = '/' ∨ c = '.' ∨ c = '-' then '_' else c)

/-- The module path of a file that was named by hand: backslashes count as
slashes, and a start from the current directory is left out. -/
def ofFileName (name : String) : String :=
  let path := name.map (fun c => if c = '\\' then '/' else c)
  match path.toList with
  | '.' :: '/' :: rest => String.ofList rest
  | _ => path

def segments (path : String) : List String :=
  (Text.split (· == '/') path.toList).map String.ofList

def isQuote (c : Char) : Bool :=
  c == '\'' || c == '"'

/-- Go one segment along a path; the root has no directory above it. -/
def follow (dir : List String) (segment : String) : List String :=
  if segment = ".." then dir.dropLast
  else if segment = "." then dir
  else dir ++ [segment]

def isRelative : List String → Bool
  | first :: _ => first == "." || first == ".."
  | [] => false

/-- The segments of the path that a specifier names.  A relative specifier
starts at the importing file's directory, any other at the package directory,
where a lone package name stands for the index of the package. -/
def resolveSegments (specifier importer : String) : List String :=
  let named := segments (String.ofList (Text.trim isQuote specifier.toList))
  if isRelative named then
    named.foldl follow (segments importer).dropLast
  else if named.length = 1 then
    (named ++ ["index.js"]).foldl follow ["node_modules"]
  else
    named.foldl follow ["node_modules"]

def hasExtension (path : List String) : Bool :=
  path.getLast?.any (fun last => last.toList.contains '.')

def resolve (specifier importer : String) : String :=
  let path := resolveSegments specifier importer
  if hasExtension path then "/".intercalate path else "/".intercalate path ++ ".js"

end ModulePath
end ScriptBundler
