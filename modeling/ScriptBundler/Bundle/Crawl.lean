import ScriptBundler.Config
import ScriptBundler.Bundle.Asset
import ScriptBundler.Bundle.Cache
import ScriptBundler.Bundle.Error

/-!
# Finding the modules of a bundle

Starting from the entry, every file that a loaded file names is loaded too, in
the order in which they are found.  A file that cannot be loaded is reported
and does not keep the others from being loaded.
-/

namespace ScriptBundler

structure Project where
  root : String
  config : Config

namespace Project

def file (p : Project) (path : String) : String :=
  FilePath.join p.root path

def outDir (p : Project) : String :=
  p.file p.config.bundleDir

def entryPath (p : Project) : String :=
  ModulePath.ofFileName p.config.entry

end Project

/-!
# Loading one file

A script is compiled, or taken from the cache if it has not been modified since.
Every other file is copied.
-/

structure LoadedFile where
  found : Module
  /-- The time of the file, if it was compiled just now. -/
  compiled : Option Timestamp
  /-- The name of the copy of an asset. -/
  copiedAs : Option String

def loadAsset (p : Project) (files : Files) (path : String) :
    Files × Except BundleError LoadedFile :=
  match files.makeDirectories p.outDir with
  | (files, some e) => (files, .error (.file e))
  | (files, none) =>
      match files.copy (p.file path) (FilePath.join p.outDir (Asset.fileName path)) with
      | .error e => (files, .error (.file e))
      | .ok files =>
          let found := Module.unlinked path (Asset.code path) [] .asset
          (files, .ok ⟨found, none, some (Asset.fileName path)⟩)

def loadScript (p : Project) (files : Files) (cache : FileCache) (path : String)
    (modified : Option Timestamp) : Except BundleError LoadedFile :=
  match modified.bind (FileCache.find? cache path) with
  | some cached => .ok ⟨.unlinked path cached.code cached.imports .script, none, none⟩
  | none =>
      match files.read (p.file path) with
      | .error e => .error (.file e)
      | .ok source =>
          match LoadedModule.ofBytes path source with
          | .error e => .error (.load e)
          | .ok m => .ok ⟨.unlinked path m.code m.imports .script, modified, none⟩

/-- The time of modification of a file; a directory has none that matters. -/
def modifiedAt : FileEntry → Option Timestamp
  | .file _ modified => some modified
  | .directory => none

def loadFile (p : Project) (files : Files) (cache : FileCache) (path : String) :
    Files × Except BundleError LoadedFile :=
  match files.stat (p.file path) with
  | .error _ => (files, .error (.missing path))
  | .ok entry =>
      if Asset.isScript path then (files, loadScript p files cache path (modifiedAt entry))
      else loadAsset p files path

/-!
# Loading all files

A crawl keeps what it has found, and loads what is lined up in rounds.
-/

structure Crawl where
  files : Files
  cache : FileCache
  graph : Graph
  errors : List BundleError
  assets : List String
  /-- Every path found so far, in the order in which they were found. -/
  found : List String
  /-- The paths at the end of `found` that are still to be loaded. -/
  next : List String

namespace Crawl

def start (files : Files) (cache : FileCache) (entry : String) : Crawl :=
  ⟨files, cache, .empty, [], [], [entry], [entry]⟩

def discover (c : Crawl) (path : String) : Crawl :=
  if path ∈ c.found then c
  else { c with found := c.found ++ [path], next := c.next ++ [path] }

def fail (c : Crawl) (e : BundleError) : Crawl :=
  { c with errors := c.errors ++ [e] }

def remember (c : Crawl) (file : LoadedFile) : Crawl :=
  match file.compiled with
  | some modified =>
      let cached : CachedFile := ⟨file.found.code, file.found.imports, modified⟩
      { c with cache := c.cache.insert file.found.path cached }
  | none => c

def addModule (c : Crawl) (file : LoadedFile) : Crawl :=
  match c.graph.add file.found with
  | .ok (_, graph) => { c with graph := graph }
  | .error e => c.fail (.collision e)

def accept (c : Crawl) (file : LoadedFile) : Crawl :=
  let c := file.found.imports.foldl discover c
  let c := c.remember file
  let c := { c with assets := c.assets ++ file.copiedAs.toList }
  c.addModule file

def visit (p : Project) (c : Crawl) (path : String) : Crawl :=
  match loadFile p c.files c.cache path with
  | (files, .ok file) => { c with files := files }.accept file
  | (files, .error e) => { c with files := files }.fail e

def rounds (p : Project) : Nat → Crawl → Crawl
  | 0, c => c
  | n + 1, c =>
      match c.next with
      | [] => c
      | paths => rounds p n (paths.foldl (visit p) { c with next := [] })

/-- There are fewer paths than this that are short enough to be followed.  Every
round but the last two loads one of them for the first time. -/
def mostRounds : Nat :=
  Nat.pow 256 (Files.longestPath + 1)

def run (p : Project) (files : Files) (cache : FileCache) : Crawl :=
  rounds p mostRounds (start files cache p.entryPath)

end Crawl
end ScriptBundler
