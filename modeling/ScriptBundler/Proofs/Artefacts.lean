import Mathlib.Data.List.Basic
import ScriptBundler.Proofs.Failures

/-!
# What a failed build leaves alone

A build writes copies of assets, the bundle, the page and the cache, in this
order.  A build that fails has not written what comes after the failure, and no
copy has the name of what was there before.
-/

namespace ScriptBundler

variable {files files' : Files} {p : Project}

namespace Files

/-- The file that a path leads to, or its absence, is the same as before. -/
structure Spares (files files' : Files) (path : String) : Prop where
  leads : ∀ location, files.locate path = .ok location → files'.locate path = .ok location
  file : ∀ location, files'.locate path = .ok location →
    files'.fileAt? location = files.fileAt? location

theorem Changes.spares {writes : String → Prop} (h : Changes writes files files')
    {dir name : String} (hslash : '/' ∉ name.toList) (hname : IsName name)
    (hwrites : ¬writes name) : files.Spares files' (FilePath.join dir name) := by
  constructor
  · exact fun location hlocate => h.locate hlocate
  · intro location hlocate
    have hlast : (FilePath.parts (FilePath.join dir name)).getLast? = some name := by
      rw [FilePath.getLast_parts_join, FilePath.parts_of_name hslash, List.getLast?_singleton]
    apply h.file
    intro other hother
    rw [getLast_of_locate hlocate hlast hname] at hother
    cases hother
    exact hwrites

end Files

namespace Crawl

theorem changes_foldl_visit (p : Project) (paths : List String) (c : Crawl) :
    Files.Changes Asset.IsCopyName c.files (paths.foldl (visit p) c).files := by
  induction paths generalizing c with
  | nil => exact .refl _ c.files
  | cons path paths ih =>
    have hvisit := changes_loadFile p c.files c.cache path
    rw [← files_visit] at hvisit
    exact hvisit.trans (ih (c.visit p path))

theorem changes_rounds (p : Project) (n : Nat) (c : Crawl) :
    Files.Changes Asset.IsCopyName c.files (rounds p n c).files := by
  induction n generalizing c with
  | zero => exact .refl _ c.files
  | succ n ih =>
    by_cases hnext : c.next = []
    · rw [rounds_of_next hnext]
      exact .refl _ c.files
    · rw [rounds_succ hnext]
      exact (changes_foldl_visit p c.next { c with next := [] }).trans (ih _)

theorem changes_run (p : Project) (files : Files) (cache : FileCache) :
    Files.Changes Asset.IsCopyName files (run p files cache).files := by
  rw [run]
  generalize mostRounds = n
  exact changes_rounds p n (start files cache p.entryPath)

end Crawl

/-- Whether a file is missing, cannot be parsed or has the id of another one. -/
def BundleError.isOfLoading : BundleError → Bool
  | .missing _ | .load _ | .collision _ => true
  | .file _ | .template _ _ => false

theorem Visit.template_notMem_errors (p : Project) (path : String) (fault : TemplateFault)
    (earlier later : List Visit) : .template path fault ∉ errors p earlier later := by
  induction later generalizing earlier with
  | nil => exact List.not_mem_nil
  | cons v later ih =>
    rw [errors, List.mem_append, not_or]
    refine ⟨?_, ih (earlier ++ [v])⟩
    rw [Option.mem_toList]
    intro hmem
    unfold error? at hmem
    split at hmem
    · rename_i e hresult
      cases hmem
      cases result_eq_error_iff.mp hresult
    · rcases Option.map_eq_some_iff.mp hmem with ⟨u, _, heq⟩
      cases heq

namespace Project

open Build

def bundlePath (p : Project) : String :=
  FilePath.join p.outDir "bundle.js"

def pagePath (p : Project) : String :=
  FilePath.join p.outDir "index.html"

def cachePath (p : Project) : String :=
  FilePath.join (p.file p.config.permanentCache.dirName) FileCache.fileName

theorem not_isCopyName_of_noUnderscore {name : String} (hpoint : '.' ∈ name.toList)
    (hunderscore : '_' ∉ name.toList) : ¬Asset.IsCopyName name :=
  fun h => hunderscore (h.underscore_mem hpoint)

theorem spares_of_copies (h : Files.Changes Asset.IsCopyName files files') :
    files.Spares files' p.bundlePath ∧ files.Spares files' p.pagePath ∧
      files.Spares files' p.cachePath :=
  ⟨h.spares (by decide) (by decide) (not_isCopyName_of_noUnderscore (by decide) (by decide)),
    h.spares (by decide) (by decide) (not_isCopyName_of_noUnderscore (by decide) (by decide)),
    h.spares (by decide) (by decide) (not_isCopyName_of_noUnderscore (by decide) (by decide))⟩

/-- What may be written by a build that fails after its crawl. -/
def IsBundleOrCopy (name : String) : Prop :=
  Asset.IsCopyName name ∨ name = "bundle.js"

theorem spares_of_bundle (h : Files.Changes IsBundleOrCopy files files') :
    files.Spares files' p.pagePath ∧ files.Spares files' p.cachePath := by
  have hother : ∀ name : String, '.' ∈ name.toList → '_' ∉ name.toList → name ≠ "bundle.js" →
      ¬IsBundleOrCopy name := by
    intro name hpoint hunderscore hne hwrites
    exact hwrites.elim (not_isCopyName_of_noUnderscore hpoint hunderscore) hne
  exact ⟨h.spares (by decide) (by decide) (hother _ (by decide) (by decide) (by decide)),
    h.spares (by decide) (by decide) (hother _ (by decide) (by decide) (by decide))⟩

theorem changes_writeBundle {files written : Files} {text : String}
    (h : files.writeText p.bundlePath text = .ok written) :
    Files.Changes IsBundleOrCopy files written ∧
      written.read p.bundlePath = .ok (Utf8.encode text) := by
  rcases Files.written_of_write h with ⟨location, hwritten⟩
  refine ⟨hwritten.changes ?_, hwritten.read⟩
  intro name hname
  have hslash : '/' ∉ "bundle.js".toList := by decide
  rw [bundlePath, FilePath.getLast_parts_join, FilePath.parts_of_name hslash] at hname
  cases hname
  exact Or.inr rfl

theorem changes_of_makeDirectories {files made : Files} {dir : String} {failure : Option FileError}
    (writes : String → Prop) (h : files.makeDirectories dir = (made, failure)) :
    Files.Changes writes files made := by
  have hchanges := Files.changes_makeDirectories writes files dir
  rw [h] at hchanges
  exact hchanges

/-- A build that fails after its crawl fails at the template, with the bundle
written and nothing else, or at a file that it writes. -/
theorem changes_of_finishFails {c : Crawl} {errors : List BundleError}
    (h : p.FinishFails c files errors files') :
    (∀ e ∈ errors, e.isOfLoading = false) ∧
    ∀ path fault, .template path fault ∈ errors →
      Files.Changes IsBundleOrCopy files files' ∧
        files'.read p.bundlePath = .ok (Utf8.encode (p.scriptOf c)) := by
  cases h with
  | template hwrite _ _ =>
    exact ⟨by simp [BundleError.isOfLoading], fun _ _ _ => changes_writeBundle hwrite⟩
  | script _ | directory | page => exact ⟨by simp [BundleError.isOfLoading], by simp⟩

/-- The bundle that a build makes, as far as its modules can be loaded. -/
def newScript (p : Project) (w : Workspace) : String :=
  p.scriptOf (Crawl.run p (w.files.makeDirectories p.outDir).1 w.cache)

/-- A build in which a file is missing, cannot be parsed or has the id of another
one leaves the bundle, the page and the cache as they were.  If the template is at
fault, the page and the cache are as they were, and the bundle is the new one. -/
theorem run_error_spares {p : Project} {w : Workspace} {errors : List BundleError}
    (h : (p.run w).1 = .error errors) :
    ((∃ e ∈ errors, e.isOfLoading = true) →
      w.files.Spares (p.run w).2.files p.bundlePath ∧
      w.files.Spares (p.run w).2.files p.pagePath ∧
      w.files.Spares (p.run w).2.files p.cachePath) ∧
    ((∃ path fault, .template path fault ∈ errors) →
      w.files.Spares (p.run w).2.files p.pagePath ∧
      w.files.Spares (p.run w).2.files p.cachePath ∧
      (p.run w).2.files.read p.bundlePath = .ok (Utf8.encode (p.newScript w))) := by
  rcases hmade : w.files.makeDirectories p.outDir with ⟨files, _ | cause⟩
  · have hcrawl : Files.Changes Asset.IsCopyName w.files (Crawl.run p files w.cache).files :=
      (changes_of_makeDirectories _ hmade).trans (Crawl.changes_run p files w.cache)
    rcases run_eq_error hmade h with ⟨heq, _, hfiles⟩ | ⟨_, hfinish⟩
    · have hspares := spares_of_copies (p := p) hcrawl
      rw [← hfiles] at hspares
      refine ⟨fun _ => hspares, ?_⟩
      rintro ⟨path, fault, hmem⟩
      have herrors := (Crawl.run_log (Files.settled_of_makeDirectories hmade) w.cache).2.1
      rw [heq, herrors] at hmem
      exact absurd hmem (Visit.template_notMem_errors p path fault _ _)
    · rcases changes_of_finishFails hfinish with ⟨hloading, htemplate⟩
      constructor
      · rintro ⟨e, he, htrue⟩
        rw [hloading e he] at htrue
        cases htrue
      · rintro ⟨path, fault, hmem⟩
        rcases htemplate path fault hmem with ⟨hchanges, hread⟩
        rcases spares_of_bundle (p := p)
          ((hcrawl.mono fun _ hcopy => Or.inl hcopy).trans hchanges) with ⟨hpage, hcache⟩
        refine ⟨hpage, hcache, ?_⟩
        rw [newScript, hmade]
        exact hread
  · have hrun : (p.run w).1 = .error [.file cause] := by
      rw [run_fst, build_eq, bind_apply, changeFiles_apply, hmade]
      rfl
    rw [hrun] at h
    cases h
    constructor
    · rintro ⟨e, he, htrue⟩
      rw [List.mem_singleton.mp he] at htrue
      cases htrue
    · rintro ⟨path, fault, hmem⟩
      cases List.mem_singleton.mp hmem

def pageProject : Project :=
  ⟨"", { Config.default with templateHtml := "page.html" }⟩

def pageFiles : Files :=
  ⟨[(["index.js"], .file [] ⟨1, 0⟩), (["page.html"], .file [] ⟨1, 0⟩), (["build"], .directory)],
    [], ⟨2, 0⟩⟩

theorem run_error_spares_page :
    ∃ errors path fault, (pageProject.run ⟨pageFiles, Table.empty, []⟩).1 = .error errors ∧
      .template path fault ∈ errors ∧
      pageFiles.Spares (pageProject.run ⟨pageFiles, Table.empty, []⟩).2.files
        pageProject.pagePath ∧
      pageFiles.Spares (pageProject.run ⟨pageFiles, Table.empty, []⟩).2.files
        pageProject.cachePath ∧
      (pageProject.run ⟨pageFiles, Table.empty, []⟩).2.files.read pageProject.bundlePath =
        .ok (Utf8.encode (pageProject.newScript ⟨pageFiles, Table.empty, []⟩)) := by
  have hcodes : ((pageProject.run ⟨pageFiles, Table.empty, []⟩).1.mapError
      (List.map BundleError.code)).map (fun _ => ()) = .error ["TEMPLATE_INVALID"] := by
    decide +kernel
  cases hrun : (pageProject.run ⟨pageFiles, Table.empty, []⟩).1 with
  | ok output =>
    rw [hrun] at hcodes
    cases hcodes
  | error errors =>
    rw [hrun] at hcodes
    obtain ⟨e, rfl, hcode⟩ := List.map_eq_singleton_iff.mp (Except.error.inj hcodes)
    cases e with
    | template path fault =>
      have hmem : .template path fault ∈ [BundleError.template path fault] :=
        List.mem_singleton_self _
      exact ⟨_, path, fault, rfl, hmem, (run_error_spares hrun).2 ⟨path, fault, hmem⟩⟩
    | _ => simp [BundleError.code] at hcode

/-- The bundle is written before the template is read, and so it is there after
the build has failed. -/
theorem not_spares_bundle_page :
    (pageProject.run ⟨pageFiles, Table.empty, []⟩).1.isOk = false ∧
    ¬pageFiles.Spares (pageProject.run ⟨pageFiles, Table.empty, []⟩).2.files
      pageProject.bundlePath := by
  have hfails : (pageProject.run ⟨pageFiles, Table.empty, []⟩).1.isOk = false := by
    decide +kernel
  have hplace : pageFiles.locate pageProject.bundlePath = .ok ["build", "bundle.js"] := by
    rfl
  have hbefore : pageFiles.fileAt? ["build", "bundle.js"] = none := by
    decide +kernel
  have hafter : ((pageProject.run ⟨pageFiles, Table.empty, []⟩).2.files.fileAt?
      ["build", "bundle.js"]).isSome = true := by
    decide +kernel
  refine ⟨hfails, ?_⟩
  intro hspares
  rw [hspares.file _ (hspares.leads _ hplace), hbefore] at hafter
  cases hafter

end Project
end ScriptBundler
