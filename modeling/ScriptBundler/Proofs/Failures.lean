import Mathlib.Data.List.Basic
import Mathlib.Data.List.Nodup
import ScriptBundler.Proofs.Frontiers

/-!
# What a build reports

A crawl keeps a log of its visits.  From the log alone it can be told which
errors the build reports: one for every file that cannot be loaded and one for
every file whose id is taken, in the order of the visits.
-/

namespace ScriptBundler

variable {p : Project} {e : BundleError} {c : Crawl} {files : Files} {w w' : Workspace}

/-!
# Visits

A visit loads the file of a path, or fails for one of a few causes.
-/

/-- A visit to a path, with the files and the cache that it meets. -/
structure Visit where
  path : String
  files : Files
  cache : FileCache

namespace Visit

def result (p : Project) (v : Visit) : Except BundleError LoadedFile :=
  (loadFile p v.files v.cache v.path).2

def isLoaded (p : Project) (v : Visit) : Bool :=
  (v.result p).isOk

/-- Why a file cannot be loaded. -/
inductive Fails (p : Project) (v : Visit) : BundleError → Prop where
  /-- There is nothing under the path. -/
  | missing :
      (∀ entry, v.files.stat (p.file v.path) ≠ .ok entry) → Fails p v (.missing v.path)
  /-- A script that has not been compiled before does not parse. -/
  | load {content : List UInt8} {modified : Timestamp} {cause : LoadError} :
      Asset.isScript v.path = true →
      v.files.stat (p.file v.path) = .ok (.file content modified) →
      FileCache.find? v.cache v.path modified = none →
      LoadedModule.ofBytes v.path content = .error cause → Fails p v (.load cause)
  /-- There is a directory under the path of a script. -/
  | read :
      Asset.isScript v.path = true → v.files.stat (p.file v.path) = .ok .directory →
      Fails p v (.file .isDirectory)
  /-- There is no directory to copy an asset to. -/
  | makeDirectories {entry : FileEntry} {made : Files} {cause : FileError} :
      Asset.isScript v.path = false → v.files.stat (p.file v.path) = .ok entry →
      v.files.makeDirectories p.outDir = (made, some cause) → Fails p v (.file cause)
  /-- An asset cannot be copied. -/
  | copy {entry : FileEntry} {made : Files} {cause : FileError} :
      Asset.isScript v.path = false → v.files.stat (p.file v.path) = .ok entry →
      v.files.makeDirectories p.outDir = (made, none) →
      made.copy (p.file v.path) (FilePath.join p.outDir (Asset.fileName v.path)) = .error cause →
      Fails p v (.file cause)

theorem result_eq_error_iff {v : Visit} : v.result p = .error e ↔ v.Fails p e := by
  unfold result loadFile
  constructor
  · intro h
    split at h
    · rename_i hstat
      cases h
      apply Fails.missing
      intro entry hentry
      rw [hstat] at hentry
      cases hentry
    · rename_i entry hstat
      cases hscript : Asset.isScript v.path with
      | true =>
        rw [hscript, if_pos rfl] at h
        cases entry with
        | directory =>
          have hread : v.files.read (p.file v.path) = .error .isDirectory := by
            rw [Files.read, hstat]
          simp only [loadScript, modifiedAt, Option.bind_none, hread] at h
          cases h
          exact .read hscript hstat
        | file content modified =>
          simp only [loadScript, modifiedAt, Option.bind_some, Files.read_of_stat hstat] at h
          split at h
          · cases h
          · rename_i hfind
            split at h
            · rename_i cause hload
              cases h
              exact .load hscript hstat hfind hload
            · cases h
      | false =>
        rw [hscript, if_neg Bool.false_ne_true] at h
        unfold loadAsset at h
        split at h
        · rename_i made cause hmade
          cases h
          exact .makeDirectories hscript hstat hmade
        · rename_i made hmade
          split at h
          · rename_i cause hcopy
            cases h
            exact .copy hscript hstat hmade hcopy
          · cases h
  · intro h
    cases h with
    | missing hnone =>
      cases hstat : v.files.stat (p.file v.path) with
      | error e => rfl
      | ok entry => exact absurd hstat (hnone entry)
    | load hscript hstat hfind hload =>
      rw [hstat]
      simp only [hscript, if_true, loadScript, modifiedAt, Option.bind_some, hfind,
        Files.read_of_stat hstat, hload]
    | read hscript hstat =>
      have hread : v.files.read (p.file v.path) = .error .isDirectory := by
        rw [Files.read, hstat]
      rw [hstat]
      simp only [hscript, if_true, loadScript, modifiedAt, Option.bind_none, hread]
    | makeDirectories hscript hstat hmade =>
      rw [hstat]
      simp only [hscript, Bool.false_eq_true, if_false, loadAsset, hmade]
    | copy hscript hstat hmade hcopy =>
      rw [hstat]
      simp only [hscript, Bool.false_eq_true, if_false, loadAsset, hmade, hcopy]

/-- The error that a visit leads to, if any.  A file that loads may have the id
of a file that was loaded before; the first of these has the id. -/
def error? (p : Project) (earlier : List Visit) (v : Visit) : Option BundleError :=
  match v.result p with
  | .error e => some e
  | .ok _ =>
    (earlier.find? (fun u => u.isLoaded p && ModulePath.id u.path == ModulePath.id v.path)).map
      (fun u => .collision ⟨ModulePath.id v.path, u.path, v.path⟩)

def errors (p : Project) : List Visit → List Visit → List BundleError
  | _, [] => []
  | earlier, v :: later => (v.error? p earlier).toList ++ errors p (earlier ++ [v]) later

end Visit

/-!
# The log of a crawl

The graph holds the first file of each id, so the log tells which files collide
with it.
-/

theorem Graph.add_eq_of_notMem {g : Graph} {m : Module} (h : m.path ∉ g.paths) :
    g.add m =
      match g.modules.find? (fun other => other.id == m.id) with
      | some other => .error ⟨m.id, other.path, m.path⟩
      | none => .ok (g.size, ⟨g.modules ++ [m]⟩) := by
  unfold Graph.add
  split
  · rename_i position hposition
    rw [Graph.positionOf_eq_none_iff.mpr h] at hposition
    cases hposition
  · rfl

namespace Crawl

def visits (p : Project) : List String → Crawl → List Visit
  | [], _ => []
  | path :: paths, c => ⟨path, c.files, c.cache⟩ :: visits p paths (c.visit p path)

theorem map_path_visits (p : Project) (paths : List String) (c : Crawl) :
    (visits p paths c).map Visit.path = paths := by
  induction paths generalizing c with
  | nil => rfl
  | cons path paths ih => rw [visits, List.map_cons, ih]

theorem accept_cases {file : LoadedFile} (h : file.found.path ∉ c.graph.paths) :
    (∃ other, c.graph.modules.find? (fun m => m.id == file.found.id) = some other ∧
      (c.accept file).graph = c.graph ∧
      (c.accept file).errors =
        c.errors ++ [.collision ⟨file.found.id, other.path, file.found.path⟩]) ∨
    (c.graph.modules.find? (fun m => m.id == file.found.id) = none ∧
      (c.accept file).graph = ⟨c.graph.modules ++ [file.found]⟩ ∧
      (c.accept file).errors = c.errors) := by
  rw [accept_eq]
  unfold addModule noteCopy
  dsimp only
  rw [Graph.add_eq_of_notMem h]
  cases hfind : c.graph.modules.find? (fun m => m.id == file.found.id) with
  | some other => exact Or.inl ⟨other, rfl, rfl, rfl⟩
  | none => exact Or.inr ⟨rfl, rfl, rfl⟩

/-- The graph holds, for each id, the first file that was loaded with it. -/
structure Logged (p : Project) (earlier : List Visit) (c : Crawl) : Prop where
  paths : ∀ path ∈ c.graph.paths, path ∈ earlier.map Visit.path
  ids : ∀ id, (c.graph.modules.find? (fun m => m.id == id)).map Module.path =
    (earlier.find? (fun u => u.isLoaded p && ModulePath.id u.path == id)).map Visit.path

theorem logged_start (p : Project) (files : Files) (cache : FileCache) (entry : String) :
    Logged p [] (start files cache entry) :=
  ⟨fun _ h => h, fun _ => rfl⟩

section Visit

variable {earlier : List Visit} {path : String}

theorem Logged.visit_failed (h : Logged p earlier c)
    (hload : loadFile p c.files c.cache path = (files, .error e)) :
    Logged p (earlier ++ [⟨path, c.files, c.cache⟩]) (c.visit p path) := by
  have hresult : (⟨path, c.files, c.cache⟩ : Visit).result p = .error e :=
    congrArg Prod.snd hload
  have hloaded : (⟨path, c.files, c.cache⟩ : Visit).isLoaded p = false := by
    rw [Visit.isLoaded, hresult]
    rfl
  have hgraph : (c.visit p path).graph = c.graph := by
    unfold visit
    rw [hload]
    rfl
  constructor
  · intro q hq
    rw [hgraph] at hq
    rw [List.map_append]
    exact List.mem_append_left _ (h.paths q hq)
  · intro id
    simp [hgraph, h.ids, List.find?_append, hloaded]

theorem Logged.visit_loaded (h : Logged p earlier c) (hpath : path ∉ earlier.map Visit.path)
    {file : LoadedFile} (hload : loadFile p c.files c.cache path = (files, .ok file)) :
    Logged p (earlier ++ [⟨path, c.files, c.cache⟩]) (c.visit p path) ∧
      (c.visit p path).errors =
        c.errors ++ ((⟨path, c.files, c.cache⟩ : Visit).error? p earlier).toList := by
  have hfile := (loadFile_isOf hload).1.1
  have hid : file.found.id = ModulePath.id path := by rw [Module.id, hfile]
  have hnew : file.found.path ∉ ({ c with files := files } : Crawl).graph.paths := by
    rw [hfile]
    exact fun hmem => hpath (h.paths path hmem)
  have hvisit : c.visit p path = ({ c with files := files } : Crawl).accept file := by
    unfold Crawl.visit
    rw [hload]
  have hresult : (⟨path, c.files, c.cache⟩ : Visit).result p = .ok file :=
    congrArg Prod.snd hload
  have hloaded : (⟨path, c.files, c.cache⟩ : Visit).isLoaded p = true := by
    rw [Visit.isLoaded, hresult]
    rfl
  have hids := h.ids (ModulePath.id path)
  rw [hvisit]
  unfold Visit.error?
  rw [hresult]
  rcases accept_cases hnew with ⟨other, hfind, hgraph, herrors⟩ | ⟨hfind, hgraph, herrors⟩
  · -- The id is taken, so the graph stays as it is.
    rw [hid] at hfind
    rw [hfind] at hids
    rcases Option.map_eq_some_iff.mp hids.symm with ⟨first, hfirst, hother⟩
    constructor
    · constructor
      · intro q hq
        rw [hgraph] at hq
        rw [List.map_append]
        exact List.mem_append_left _ (h.paths q hq)
      · intro id
        rw [hgraph, List.find?_append]
        by_cases hsame : ModulePath.id path = id
        · rw [← hsame, hfirst]
          exact (h.ids _).trans (by rw [hfirst]; rfl)
        · simp [hsame, h.ids]
    · rw [herrors, hfirst, hid, hfile, ← hother]
      rfl
  · rw [hid] at hfind
    rw [hfind] at hids
    have hfirst := Option.map_eq_none_iff.mp hids.symm
    constructor
    · constructor
      · intro q hq
        rw [hgraph, Graph.paths, List.map_append] at hq
        rw [List.map_append]
        rcases List.mem_append.mp hq with hold | hlast
        · exact List.mem_append_left _ (h.paths q hold)
        · rw [List.map_singleton, hfile] at hlast
          exact List.mem_append_right _ hlast
      · intro id
        rw [hgraph, List.find?_append, List.find?_append]
        by_cases hsame : ModulePath.id path = id
        · rw [← hsame, hfirst]
          have hnone : List.find? (fun m => m.id == ModulePath.id path) c.graph.modules = none := hfind
          change Option.map _ (Option.or (List.find? _ c.graph.modules) _) = _
          rw [hnone]
          simp [hid, hfile, hloaded]
        · have hold := h.ids id
          change Option.map _ (Option.or (List.find? _ c.graph.modules) _) = _
          simp [hid, hsame, hold]
    · rw [herrors, hfirst]
      simp

theorem Logged.visit (h : Logged p earlier c) (hpath : path ∉ earlier.map Visit.path) :
    Logged p (earlier ++ [⟨path, c.files, c.cache⟩]) (c.visit p path) ∧
      (c.visit p path).errors =
        c.errors ++ ((⟨path, c.files, c.cache⟩ : Visit).error? p earlier).toList := by
  rcases hload : loadFile p c.files c.cache path with ⟨files, e | file⟩
  · refine ⟨h.visit_failed hload, ?_⟩
    unfold Crawl.visit Visit.error? Visit.result
    rw [hload]
    rfl
  · exact h.visit_loaded hpath hload

end Visit

theorem Logged.errors (paths : List String) {earlier : List Visit} (h : Logged p earlier c)
    (hnodup : (earlier.map Visit.path ++ paths).Nodup) :
    (paths.foldl (Crawl.visit p) c).errors = c.errors ++ Visit.errors p earlier (visits p paths c) := by
  induction paths generalizing earlier c with
  | nil => simp [visits, Visit.errors]
  | cons path paths ih =>
    have hpath : path ∉ earlier.map Visit.path := by
      intro hmem
      exact (List.nodup_append.mp hnodup).2.2 path hmem path List.mem_cons_self rfl
    rcases h.visit hpath with ⟨hnext, herrors⟩
    have hlater : ((earlier ++ [(⟨path, c.files, c.cache⟩ : Visit)]).map Visit.path ++
        paths).Nodup := by
      rw [List.map_append, List.append_assoc]
      exact hnodup
    rw [List.foldl_cons, ih hnext hlater, herrors, visits, Visit.errors, List.append_assoc]

/-! # Visits in rounds

It makes no difference to the visits of a crawl in which rounds they are made. -/

def cleared (c : Crawl) : Crawl :=
  { c with next := [] }

theorem cleared_addModule (c : Crawl) (file : LoadedFile) :
    (c.addModule file).cleared = c.cleared.addModule file := by
  unfold addModule
  rw [show c.cleared.graph = c.graph from rfl]
  cases c.graph.add file.found with
  | ok added => rfl
  | error e => rfl

theorem cleared_accept (c : Crawl) (file : LoadedFile) :
    (c.accept file).cleared = (c.cleared.accept file).cleared := by
  rw [accept_eq, accept_eq, cleared_addModule, cleared_addModule]
  unfold remember
  cases file.compiled <;> rfl

theorem cleared_visit (p : Project) (c : Crawl) (path : String) :
    (c.visit p path).cleared = (c.cleared.visit p path).cleared := by
  have hload : loadFile p c.cleared.files c.cleared.cache path =
      loadFile p c.files c.cache path := rfl
  unfold visit
  rw [hload]
  rcases loadFile p c.files c.cache path with ⟨files, e | file⟩
  · rfl
  · exact cleared_accept { c with files := files } file

theorem cleared_foldl_visit (paths : List String) {c d : Crawl} (h : c.cleared = d.cleared) :
    (paths.foldl (visit p) c).cleared = (paths.foldl (visit p) d).cleared := by
  induction paths generalizing c d with
  | nil => exact h
  | cons path paths ih =>
    refine ih ?_
    rw [cleared_visit p c, h, ← cleared_visit p d]

theorem Ends.cleared_eq {c last : Crawl} {frontiers : List (List String)}
    (h : Ends p c frontiers last) :
    last.cleared = (frontiers.flatten.foldl (visit p) c).cleared := by
  induction h with
  | done _ => rfl
  | round _ _ ih =>
    rw [ih, List.flatten_cons, List.foldl_append]
    exact cleared_foldl_visit _ (cleared_foldl_visit _ rfl)

def log (p : Project) (files : Files) (cache : FileCache) : List Visit :=
  visits p (run p files cache).found (start files cache p.entryPath)

theorem Underway.importsAt_visits {cache : FileCache} (hsettled : files.Settled p.outDir)
    (paths : List String) {visited : List String} (h : Underway files cache visited c)
    (hnodup : (visited ++ paths).Nodup) :
    ∀ v ∈ visits p paths c,
      p.importsAt v.files v.cache v.path = p.importsAt files cache v.path := by
  induction paths generalizing visited c with
  | nil =>
    intro v hv
    cases hv
  | cons path paths ih =>
    have hpath : path ∉ visited := by
      intro hmem
      exact (List.nodup_append.mp hnodup).2.2 path hmem path List.mem_cons_self rfl
    intro v hv
    rcases List.mem_cons.mp hv with rfl | hlater
    · exact h.importsAt hpath
    · refine ih (h.visit hsettled path) ?_ v hlater
      rw [List.append_assoc]
      exact hnodup

/-- A crawl visits each path that it finds once.  Its errors are those of its
visits, and it also visits what a file imports that has no place in the graph. -/
theorem run_log (hsettled : files.Settled p.outDir) (cache : FileCache) :
    ((log p files cache).map Visit.path).Nodup ∧
    (run p files cache).errors = Visit.errors p [] (log p files cache) ∧
    ∀ v ∈ log p files cache, ∀ file, v.result p = .ok file →
      ∀ target ∈ file.found.imports, target ∈ (log p files cache).map Visit.path := by
  rcases run_frontiers hsettled cache with ⟨frontiers, hends, hlast, hnext, _⟩
  have hcleared := hends.cleared_eq
  unfold log
  rw [map_path_visits]
  generalize run p files cache = last at hlast hnext hcleared ⊢
  have hfound : last.found = frontiers.flatten := by
    rw [hlast.split, hnext, List.append_nil]
  have hnodup : last.found.Nodup := by
    rw [hlast.split]
    exact hlast.nodup
  have horder := hlast.order
  rw [← hfound] at hcleared horder
  refine ⟨hnodup, ?_, ?_⟩
  · have herrors := (logged_start p files cache p.entryPath).errors last.found hnodup
    rw [show last.errors = last.cleared.errors from rfl, hcleared]
    exact herrors
  · intro v hv file hfile target htarget
    have hpath : v.path ∈ last.found := by
      have hmem := List.mem_map_of_mem (f := Visit.path) hv
      rw [map_path_visits] at hmem
      exact hmem
    have himports := (between_start p files cache).toUnderway.importsAt_visits hsettled last.found
      hnodup v hv
    have hresult : p.importsAt v.files v.cache v.path = file.found.imports := by
      unfold Project.importsAt
      rw [show (loadFile p v.files v.cache v.path).2 = .ok file from hfile]
    rw [horder, List.mem_eraseDups, List.mem_cons, List.mem_flatMap]
    exact Or.inr ⟨v.path, hpath, by rw [← himports, hresult]; exact htarget⟩

end Crawl

/-!
# After the crawl

A build whose files are all loaded fails only at the template or at a file that it
writes.
-/

namespace Project

open Build

variable {errors : List BundleError}

def scriptOf (p : Project) (c : Crawl) : String :=
  Bundle.script c.graph.link c.graph.link.order.order
    ((c.graph.link.positionOf? p.entryPath).getD 0) p.config.env

/-- How a build fails that has loaded all files: the bundle, and after it the
page, cannot be made or written.  The last argument is what becomes of the
files. -/
inductive FinishFails (p : Project) (c : Crawl) (files : Files) :
    List BundleError → Files → Prop where
  | script {cause : FileError} :
      files.writeText (FilePath.join p.outDir "bundle.js") (p.scriptOf c) = .error cause →
      FinishFails p c files [.file cause] files
  | template {written : Files} {fault : TemplateFault} :
      files.writeText (FilePath.join p.outDir "bundle.js") (p.scriptOf c) = .ok written →
      p.config.templateHtml.isEmpty = false →
      renderPage written (p.file p.config.templateHtml) "bundle.js" =
        .error (.template (p.file p.config.templateHtml) fault) →
      FinishFails p c files [.template (p.file p.config.templateHtml) fault] written
  | directory {written made : Files} {page : String} {cause : FileError} :
      files.writeText (FilePath.join p.outDir "bundle.js") (p.scriptOf c) = .ok written →
      p.config.templateHtml.isEmpty = false →
      renderPage written (p.file p.config.templateHtml) "bundle.js" = .ok page →
      written.makeDirectories p.outDir = (made, some cause) →
      FinishFails p c files [.file cause] made
  | page {written made : Files} {page : String} {cause : FileError} :
      files.writeText (FilePath.join p.outDir "bundle.js") (p.scriptOf c) = .ok written →
      p.config.templateHtml.isEmpty = false →
      renderPage written (p.file p.config.templateHtml) "bundle.js" = .ok page →
      written.makeDirectories p.outDir = (made, none) →
      made.writeText (FilePath.join p.outDir "index.html") page = .error cause →
      FinishFails p c files [.file cause] made

theorem renderPage_eq_error {path script : String} (h : renderPage files path script = .error e) :
    ∃ fault, e = .template path fault := by
  unfold renderPage at h
  split at h
  · cases h
    exact ⟨_, rfl⟩
  · split at h
    · cases h
    · cases h
      exact ⟨_, rfl⟩

theorem bind_eq_error {α β : Type} {x : Build α} {f : α → Build β}
    (h : (x >>= f) w = .error errors w') :
    x w = .error errors w' ∨ ∃ a w₁, x w = .ok a w₁ ∧ f a w₁ = .error errors w' := by
  rw [bind_apply] at h
  split at h
  · rename_i a w₁ hx
    exact Or.inr ⟨a, w₁, hx, h⟩
  · rename_i errors' w₁ hx
    cases h
    exact Or.inl hx

theorem writeFile_apply (path text : String) (w : Workspace) :
    writeFile path text w =
      match w.files.writeText path text with
      | .ok files => .ok () { w with files := files }
      | .error e => .error [.file e] w := by
  unfold writeFile
  rw [changeFiles_apply]
  cases w.files.writeText path text with
  | ok files => rfl
  | error e => rfl

theorem saveCache_ne_error : saveCache p w ≠ .error errors w' := by
  rw [saveCache_apply]
  split
  · intro h
    cases h
  · intro h
    cases h

theorem finishFails_of_error (h : p.finish c w = .error errors w') :
    p.FinishFails c w.files errors w'.files := by
  unfold finish at h
  rcases bind_eq_error h with hwrite | ⟨_, w₁, hwrite, h⟩
  · rw [writeFile_apply] at hwrite
    split at hwrite
    · cases hwrite
    · rename_i e hfailed
      cases hwrite
      exact .script hfailed
  · rw [writeFile_apply] at hwrite
    split at hwrite
    · rename_i written hwritten
      cases hwrite
      rcases bind_eq_error h with hpage | ⟨page, w₂, _, h⟩
      · rw [writePage_apply] at hpage
        split at hpage
        · cases hpage
        · rename_i htemplate
          have hsome : p.config.templateHtml.isEmpty = false := by simpa using htemplate
          split at hpage
          · rename_i e hrender
            cases hpage
            rcases renderPage_eq_error hrender with ⟨fault, rfl⟩
            exact .template hwritten hsome hrender
          · rename_i page hrender
            rcases bind_eq_error hpage with hmake | ⟨_, w₂, hmake, hpage⟩
            · rw [changeFiles_apply] at hmake
              split at hmake
              · cases hmake
              · rename_i made e hmade
                cases hmake
                exact .directory hwritten hsome hrender hmade
            · rw [changeFiles_apply] at hmake
              split at hmake
              · rename_i made hmade
                cases hmake
                rcases bind_eq_error hpage with hindex | ⟨_, w₃, _, hpage⟩
                · rw [writeFile_apply] at hindex
                  split at hindex
                  · cases hindex
                  · rename_i e hfailed
                    cases hindex
                    exact .page hwritten hsome hrender hmade hfailed
                · cases hpage
              · cases hmake
      · rcases bind_eq_error h with hsave | ⟨_, w₃, _, h⟩
        · exact absurd hsave saveCache_ne_error
        · cases h
    · cases hwrite

/-- What an error of a build that has begun to crawl comes from. -/
theorem run_eq_error (h : w.files.makeDirectories p.outDir = (files, none))
    (herror : (p.run w).1 = .error errors) :
    (errors = (Crawl.run p files w.cache).errors ∧ errors ≠ [] ∧
      (p.run w).2.files = (Crawl.run p files w.cache).files) ∨
    ((Crawl.run p files w.cache).errors = [] ∧
      p.FinishFails (Crawl.run p files w.cache) (Crawl.run p files w.cache).files errors
        (p.run w).2.files) := by
  rw [run_fst, build_apply h, bind_apply, crawl_apply] at herror
  rw [run_snd, build_apply h, bind_apply, crawl_apply]
  dsimp only at herror ⊢
  generalize Crawl.run p files w.cache = c at herror ⊢
  by_cases hempty : c.errors.isEmpty = true
  · rw [if_pos hempty] at herror ⊢
    refine Or.inr ⟨List.isEmpty_iff.mp hempty, ?_⟩
    dsimp only at herror ⊢
    cases hfinish : p.finish c ⟨c.files, c.cache, c.found⟩ with
    | ok output w' =>
      rw [hfinish] at herror
      cases herror
    | error errors' w' =>
      rw [hfinish] at herror
      cases herror
      exact finishFails_of_error hfinish
  · rw [if_neg hempty] at herror ⊢
    cases herror
    exact Or.inl ⟨rfl, fun hnil => hempty (List.isEmpty_iff.mpr hnil), rfl⟩

theorem run_of_errors (h : w.files.makeDirectories p.outDir = (files, none))
    (herrors : (Crawl.run p files w.cache).errors ≠ []) :
    (p.run w).1 = .error (Crawl.run p files w.cache).errors := by
  rw [run_fst, build_apply h, bind_apply, crawl_apply]
  dsimp only
  generalize Crawl.run p files w.cache = c at herrors ⊢
  rw [if_neg (fun hempty => herrors (List.isEmpty_iff.mp hempty))]
  rfl

/-- A build reports the errors of its crawl, if there are any: in the order of the
visits, one for each file that cannot be loaded and one for each file whose id is
taken by a file that was loaded before it.  The imports of such a file are
visited like others.  A build whose crawl meets no error can still fail, but for
what comes after. -/
theorem run_reports {p : Project} {w : Workspace} {files : Files}
    (h : w.files.makeDirectories p.outDir = (files, none)) :
    (Crawl.log p files w.cache).map Visit.path = (p.run w).2.reachable ∧
    (p.run w).2.reachable.Nodup ∧
    (∀ v ∈ Crawl.log p files w.cache, ∀ e, v.result p = .error e ↔ v.Fails p e) ∧
    (∀ v ∈ Crawl.log p files w.cache, ∀ file, v.result p = .ok file →
      ∀ target ∈ file.found.imports, target ∈ (p.run w).2.reachable) ∧
    (Visit.errors p [] (Crawl.log p files w.cache) ≠ [] →
      (p.run w).1 = .error (Visit.errors p [] (Crawl.log p files w.cache))) ∧
    (Visit.errors p [] (Crawl.log p files w.cache) = [] →
      ∀ errors, (p.run w).1 = .error errors →
        p.FinishFails (Crawl.run p files w.cache) (Crawl.run p files w.cache).files errors
          (p.run w).2.files) := by
  rcases Crawl.run_log (Files.settled_of_makeDirectories h) w.cache with
    ⟨hnodup, herrors, himports⟩
  have hpaths : (Crawl.log p files w.cache).map Visit.path = (p.run w).2.reachable := by
    rw [reachable_run h, Crawl.log, Crawl.map_path_visits]
  rw [hpaths] at hnodup himports
  rw [← herrors]
  refine ⟨hpaths, hnodup, fun v _ e => Visit.result_eq_error_iff, himports, run_of_errors h, ?_⟩
  intro hnone errors herror
  rcases run_eq_error h herror with ⟨heq, hsome, _⟩ | ⟨_, hfinish⟩
  · exact absurd (heq.trans hnone) hsome
  · exact hfinish

def faultyFiles : Files :=
  ⟨[(["a-b.js"], .file (Utf8.encode "require('./a_b')") ⟨1, 0⟩),
    (["a_b.js"], .file (Utf8.encode "require('./c')+require('./d')") ⟨1, 0⟩),
    (["c.js"], .file (Utf8.encode "(") ⟨1, 0⟩)], [], ⟨2, 0⟩⟩

theorem run_reports_faulty :
    ∃ errors, ((ofEntry "a-b.js").run ⟨faultyFiles, Table.empty, []⟩).1 = .error errors ∧
      errors.map BundleError.code = ["MODULE_ID_COLLISION", "PARSE_ERROR", "FILE_NOT_FOUND"] := by
  have hnone : (faultyFiles.makeDirectories (ofEntry "a-b.js").outDir).2 = none := by decide +kernel
  have hcodes : (Visit.errors (ofEntry "a-b.js") [] (Crawl.log (ofEntry "a-b.js")
      (faultyFiles.makeDirectories (ofEntry "a-b.js").outDir).1 Table.empty)).map
        BundleError.code =
        ["MODULE_ID_COLLISION", "PARSE_ERROR", "FILE_NOT_FOUND"] := by decide +kernel
  have hmade : (⟨faultyFiles, Table.empty, []⟩ : Workspace).files.makeDirectories
      (ofEntry "a-b.js").outDir =
        ((faultyFiles.makeDirectories (ofEntry "a-b.js").outDir).1, none) :=
    Prod.ext rfl hnone
  refine ⟨_, (run_reports hmade).2.2.2.2.1 ?_, hcodes⟩
  intro hnil
  change Visit.errors _ [] _ = [] at hnil
  rw [hnil] at hcodes
  cases hcodes

end Project
end ScriptBundler
