import ScriptBundler.Text.Split

/-!
# File paths

Paths are texts with slashes between their parts.  They are put together and
taken apart without looking at any file.
-/

namespace ScriptBundler
namespace FilePath

def parts (path : String) : List String :=
  (Text.split (· == '/') path.toList).map String.ofList

def isAbsolute (path : String) : Bool :=
  path.toList.head? == some '/'

/-- A path taken from a directory.  An absolute path is itself. -/
def join (dir path : String) : String :=
  if isAbsolute path then path
  else if dir.isEmpty || dir.toList.getLast? == some '/' then dir ++ path
  else dir ++ "/" ++ path

/-- The parts that name something: empty parts and points that stay in the
same directory are left out, but for a point at the start of a path. -/
def components (path : String) : List String :=
  match parts path with
  | [] => []
  | first :: rest =>
      (if first.isEmpty then [] else [first]) ++
        rest.filter (fun part => !part.isEmpty && part != ".")

/-- The path of the directory that holds what a path names; `none` for the
root and for the empty path. -/
def parent? (path : String) : Option String :=
  match components path with
  | [] => none
  | named =>
      some ((if isAbsolute path then "/" else "") ++ "/".intercalate named.dropLast)

def fileName? (path : String) : Option String :=
  match (components path).getLast? with
  | some name => if name = "." ∨ name = ".." then none else some name
  | none => none

/-- The text after the last point of a file name; a point at the start of the
name does not count. -/
def extension? (path : String) : Option String :=
  match fileName? path with
  | none => none
  | some name =>
      let pieces := Text.split (· == '.') name.toList
      match pieces.dropLast, pieces.getLast? with
      | [], _ => none
      | [[]], _ => none
      | _, last => last.map String.ofList

end FilePath
end ScriptBundler
