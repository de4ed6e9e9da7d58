import ScriptBundler.Bundle.CacheFile
import ScriptBundler.Bundle.Crawl
import ScriptBundler.Bundle.Order
import ScriptBundler.Bundle.Page
import ScriptBundler.Bundle.Script

/-!
# Building a bundle

A build finds the modules of a project, puts them in order and writes the
bundle, then the page and the cache if they are asked for.  If a file cannot be
loaded, nothing is written but copies of assets.
-/

namespace ScriptBundler

structure Workspace where
  files : Files
  cache : FileCache
  /-- The paths that the last build came to. -/
  reachable : List String

structure BundleOutput where
  code : String
  /-- Where the bundle was written. -/
  outfile : String
  /-- The paths of all modules in the order in which they were found. -/
  modules : List String
  /-- The names of the copied assets. -/
  assets : List String
  /-- Where the page was written. -/
  page : Option String
  warnings : List String
deriving DecidableEq, Repr

abbrev Build (α : Type) := EStateM (List BundleError) Workspace α

namespace Build

def changeFiles (change : Files → Files × Option FileError) : Build Unit := do
  let w ← get
  match change w.files with
  | (files, none) => set { w with files := files }
  | (files, some e) =>
      set { w with files := files }
      throw [.file e]

def writeFile (path text : String) : Build Unit :=
  changeFiles fun files =>
    match files.writeText path text with
    | .ok files => (files, none)
    | .error e => (files, some e)

def crawl (p : Project) : Build Crawl := do
  let w ← get
  let c := Crawl.run p w.files w.cache
  set (⟨c.files, c.cache, c.found⟩ : Workspace)
  if c.errors.isEmpty then return c else throw c.errors

def cycleWarnings (g : Graph) (cyclic : List Nat) : List String :=
  if cyclic.isEmpty then []
  else
    ["Circular dependency between: " ++
      ", ".intercalate ((cyclic.filterMap g.get?).map Module.path)]

def renderPage (files : Files) (path script : String) : Except BundleError String :=
  match files.readText path with
  | .error e => .error (.template path (.unreadable e))
  | .ok template =>
      match Page.inject template script with
      | some page => .ok page
      | none => .error (.template path .endlessBody)

def writePage (p : Project) : Build (Option String) := do
  if p.config.templateHtml.isEmpty then return none
  match renderPage (← get).files (p.file p.config.templateHtml) "bundle.js" with
  | .error e => throw [e]
  | .ok page =>
      changeFiles (fun files => files.makeDirectories p.outDir)
      let path := FilePath.join p.outDir "index.html"
      writeFile path page
      return some path

/-- Write the cache, if it is kept.  A failure is only a warning. -/
def saveCache (p : Project) : Build (List String) := do
  if !p.config.permanentCache.enable then return []
  let w ← get
  let (files, failure) := FileCache.save w.cache w.files (p.file p.config.permanentCache.dirName)
  set { w with files := files }
  return failure.toList.map (fun e => "Cannot save cache: " ++ (BundleError.file e).message)

end Build

namespace Project

open Build

def build (p : Project) : Build BundleOutput := do
  changeFiles (fun files => files.makeDirectories p.outDir)
  let c ← crawl p
  let g := c.graph.link
  let order := g.order
  let entry := (g.positionOf? p.entryPath).getD 0
  let code := Bundle.script g order.order entry p.config.env
  let outfile := FilePath.join p.outDir "bundle.js"
  writeFile outfile code
  let page ← writePage p
  let cacheWarnings ← saveCache p
  return {
    code := code
    outfile := outfile
    modules := g.paths
    assets := c.assets
    page := page
    warnings := cycleWarnings g order.cyclic ++ cacheWarnings }

/-- The workspace of a project before its first build.  A kept cache is read. -/
def openWorkspace (p : Project) (files : Files) : Workspace :=
  let cache :=
    if p.config.permanentCache.enable then
      FileCache.load files (p.file p.config.permanentCache.dirName)
    else Table.empty
  ⟨files, cache, []⟩

def run (p : Project) (w : Workspace) : Except (List BundleError) BundleOutput × Workspace :=
  match p.build w with
  | .ok output w => (.ok output, w)
  | .error errors w => (.error errors, w)

end Project
end ScriptBundler
