import ScriptBundler.Project.Path
import ScriptBundler.Project.Timestamp
import ScriptBundler.Text.Utf8

/-!
# Files

A tree of directories and files, and the operations that a build needs.  Paths
are followed part by part from the root or from the working directory, and
every directory on the way has to exist.
-/

namespace ScriptBundler

inductive FileError where
  | notFound
  | alreadyExists
  | notDirectory
  | isDirectory
  | nameTooLong
  /-- A name holds a null character. -/
  | nullInName
  /-- A directory cannot be copied. -/
  | notRegular
  | invalidText
deriving DecidableEq, Repr

namespace FileError

def message : FileError → String
  | notFound => "No such file or directory (os error 2)"
  | alreadyExists => "File exists (os error 17)"
  | notDirectory => "Not a directory (os error 20)"
  | isDirectory => "Is a directory (os error 21)"
  | nameTooLong => "File name too long (os error 36)"
  | nullInName => "file name contained an unexpected NUL byte"
  | notRegular => "the source path is neither a regular file nor a symlink to a regular file"
  | invalidText => "stream did not contain valid UTF-8"

end FileError

inductive FileEntry where
  | directory
  | file (content : List UInt8) (modified : Timestamp)
deriving DecidableEq, Repr

/-- Where something is: the names on the way to it from the root. -/
abbrev Location := List String

structure Files where
  /-- Everything below the root. -/
  entries : List (Location × FileEntry)
  /-- Where relative paths start. -/
  workDir : Location
  /-- The time, which moves on with every write. -/
  now : Timestamp
deriving DecidableEq, Repr

namespace Files

/-- What is at a location.  The root is always a directory. -/
def at? (files : Files) (location : Location) : Option FileEntry :=
  if location.isEmpty then some .directory else files.entries.lookup location

def put (files : Files) (location : Location) (entry : FileEntry) : Files :=
  { files with
    entries :=
      files.entries.filter (fun other => other.1 != location) ++ [(location, entry)] }

def erase (files : Files) (location : Location) : Files :=
  { files with entries := files.entries.filter (fun entry => !location.isPrefixOf entry.1) }

/-!
# Following paths

A path is followed from the root, part by part and through directories only.
-/

def longestName : Nat :=
  255

def longestPath : Nat :=
  4095

def step (files : Files) (here : Location) (part : String) : Except FileError Location :=
  match files.at? here with
  | none => .error .notFound
  | some (.file _ _) => .error .notDirectory
  | some .directory =>
      if part.isEmpty ∨ part = "." then .ok here
      else if part = ".." then .ok here.dropLast
      else if longestName < part.utf8ByteSize then .error .nameTooLong
      else .ok (here ++ [part])

/-- Go along the parts of a path.  What the last part names need not exist. -/
def walk (files : Files) (here : Location) : List String → Except FileError Location
  | [] => .ok here
  | part :: rest =>
      match files.step here part with
      | .ok next => walk files next rest
      | .error e => .error e

/-- The location that a path leads to.  No name holds a null character, and a
path with one is not followed at all. -/
def locate (files : Files) (path : String) : Except FileError Location :=
  if path.toList.contains '\x00' then .error .nullInName
  else if path.isEmpty then .error .notFound
  else if longestPath < path.utf8ByteSize then .error .nameTooLong
  else files.walk (if FilePath.isAbsolute path then [] else files.workDir) (FilePath.parts path)

def stat (files : Files) (path : String) : Except FileError FileEntry :=
  match files.locate path with
  | .error e => .error e
  | .ok location =>
      match files.at? location with
      | some entry => .ok entry
      | none => .error .notFound

def has (files : Files) (path : String) : Bool :=
  match files.stat path with
  | .ok _ => true
  | .error _ => false

def isDirectory (files : Files) (path : String) : Bool :=
  match files.stat path with
  | .ok .directory => true
  | _ => false

def read (files : Files) (path : String) : Except FileError (List UInt8) :=
  match files.stat path with
  | .ok (.file content _) => .ok content
  | .ok .directory => .error .isDirectory
  | .error e => .error e

def readText (files : Files) (path : String) : Except FileError String :=
  match files.read path with
  | .ok content =>
      match Utf8.decode? content with
      | some text => .ok text
      | none => .error .invalidText
  | .error e => .error e

/-!
# Writing

A file is written as a whole, or it is left as it was: a write that stops half-way
is left out of account.
-/

def withoutSlashes (path : String) : String :=
  String.ofList (Text.trimEnd (· == '/') path.toList)

/-- Whether a path ends in a slash, in a point or in two points, and so can
only name a directory. -/
def namesDirectory (path : String) : Bool :=
  match (FilePath.parts path).getLast? with
  | some last => last.isEmpty || last == "." || last == ".."
  | none => false

def locateFile (files : Files) (path : String) : Except FileError Location :=
  if namesDirectory path then
    match files.locate (withoutSlashes path) with
    | .ok _ => .error .isDirectory
    | .error e => .error e
  else
    match files.locate path with
    | .error e => .error e
    | .ok location =>
        match files.at? location with
        | some .directory => .error .isDirectory
        | _ => .ok location

def tick (files : Files) : Files :=
  { files with now := Timestamp.ofParts files.now.seconds (files.now.nanoseconds + 1) }

/-- Write a file, over the one that is there. -/
def write (files : Files) (path : String) (content : List UInt8) : Except FileError Files :=
  match files.locateFile path with
  | .ok location => .ok (files.tick.put location (.file content files.now))
  | .error e => .error e

def writeText (files : Files) (path text : String) : Except FileError Files :=
  files.write path (Utf8.encode text)

/-- Copy a file.  The copy is emptied first, so a file copied onto itself ends
up empty. -/
def copy (files : Files) (source target : String) : Except FileError Files :=
  match files.stat source with
  | .error e => .error e
  | .ok .directory => .error .notRegular
  | .ok (.file _ _) =>
      match files.write target [] with
      | .error e => .error e
      | .ok emptied =>
          match emptied.read source with
          | .ok content => files.write target content
          | .error e => .error e

def makeDirectory (files : Files) (path : String) : Except FileError Files :=
  match files.locate (withoutSlashes path) with
  | .error e => .error e
  | .ok location =>
      match files.at? location with
      | some _ => .error .alreadyExists
      | none => .ok (files.put location .directory)

def ensureDirectory (files : Files) (path : String) : Except FileError Files :=
  match files.makeDirectory path with
  | .ok made => .ok made
  | .error e => if files.isDirectory path then .ok files else .error e

def tryDirectory (files : Files) (path : String) : Files × Option FileError :=
  match files.ensureDirectory path with
  | .ok made => (made, none)
  | .error e => (files, some e)

/-- Make a directory and those above it, at most `depth` of them.  A failure
may leave some of them made. -/
def makeDirectoriesWithin : Nat → String → Files → Files × Option FileError
  | 0, path, files => if path.isEmpty then (files, none) else files.tryDirectory path
  | depth + 1, path, files =>
      if path.isEmpty then (files, none)
      else
        match files.tryDirectory path, FilePath.parent? path with
        | (_, some .notFound), some parent =>
            match makeDirectoriesWithin depth parent files with
            | (files, none) => files.tryDirectory path
            | failed => failed
        | tried, _ => tried

def makeDirectories (files : Files) (path : String) : Files × Option FileError :=
  makeDirectoriesWithin (FilePath.parts path).length path files

end Files
end ScriptBundler
