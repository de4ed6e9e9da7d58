import Mathlib.Data.List.Basic
import ScriptBundler.Proofs.CacheText
import ScriptBundler.Proofs.Crawl

/-!
# Crawls with a cache

A cache does no harm as long as each of its entries was compiled from a content
that stood under its path at its time.  Such a cache gives what compiling the
file again would give, if a time never stands for two contents of one path.
-/

namespace ScriptBundler

/-!
# What is seen

A sighting is the content of a file under the path and the time at which it was
met.
-/

/-- The content of a file, met under a path at a time of modification. -/
structure Sighting where
  path : String
  modified : Timestamp
  content : List UInt8
deriving DecidableEq, Repr

/-- For each path, contents with the same time are the same. -/
def Consistent (seen : List Sighting) : Prop :=
  ∀ a ∈ seen, ∀ b ∈ seen, a.path = b.path → a.modified = b.modified → a.content = b.content

instance (seen : List Sighting) : Decidable (Consistent seen) :=
  inferInstanceAs (Decidable (∀ a ∈ seen, ∀ b ∈ seen, a.path = b.path →
    a.modified = b.modified → a.content = b.content))

def Files.sighting? (files : Files) (p : Project) (path : String) : Option Sighting :=
  match files.stat (p.file path) with
  | .ok (.file content modified) => some ⟨path, modified, content⟩
  | _ => none

namespace Crawl

def seenOnVisits (p : Project) : List String → Crawl → List Sighting
  | [], _ => []
  | path :: rest, c => (c.files.sighting? p path).toList ++ seenOnVisits p rest (c.visit p path)

def seenOnRounds (p : Project) : Nat → Crawl → List Sighting
  | 0, _ => []
  | n + 1, c =>
    match c.next with
    | [] => []
    | paths =>
      seenOnVisits p paths { c with next := [] } ++
        seenOnRounds p n (paths.foldl (visit p) { c with next := [] })

def seen (p : Project) (files : Files) (cache : FileCache) : List Sighting :=
  seenOnRounds p mostRounds (start files cache p.entryPath)

end Crawl

variable {cache : FileCache} {path : String} {modified : Timestamp} {files : Files} {p : Project}
  {file : LoadedFile}

/-- Every entry was compiled from a content that was seen. -/
def FileCache.Justified (cache : FileCache) (seen : List Sighting) : Prop :=
  ∀ entry ∈ cache.entries, ∃ content, ⟨entry.1, entry.2.modified, content⟩ ∈ seen ∧
    LoadedModule.ofBytes entry.1 content = .ok ⟨entry.2.code, entry.2.imports⟩

namespace FileCache

theorem Justified.empty (seen : List Sighting) : Justified Table.empty seen := by
  intro entry hentry
  cases hentry

theorem Justified.mono {seen seen' : List Sighting} (h : cache.Justified seen)
    (hsub : ∀ s ∈ seen, s ∈ seen') : cache.Justified seen' := by
  intro entry hentry
  rcases h entry hentry with ⟨content, hmem, hload⟩
  exact ⟨content, hsub _ hmem, hload⟩

theorem mem_of_find {cached : CachedFile} (h : find? cache path modified = some cached) :
    (path, cached) ∈ cache.entries ∧ cached.modified = modified := by
  rw [find?, Option.filter_eq_some_iff, decide_eq_true_iff, Table.get?] at h
  rcases h with ⟨hlookup, hmodified⟩
  refine ⟨?_, hmodified⟩
  rcases List.lookup_eq_some_iff.mp hlookup with ⟨before, after, hentries, _⟩
  rw [hentries]
  exact List.mem_append_right _ List.mem_cons_self

end FileCache

/-- A loaded file without the note whether it was compiled just now. -/
def LoadedFile.forget (file : LoadedFile) : LoadedFile :=
  { file with compiled := none }

theorem Files.read_of_stat {content : List UInt8}
    (h : files.stat path = .ok (.file content modified)) : files.read path = .ok content := by
  rw [Files.read, h]

theorem Files.sighting_of_stat {content : List UInt8}
    (h : files.stat (p.file path) = .ok (.file content modified)) :
    files.sighting? p path = some ⟨path, modified, content⟩ := by
  rw [Files.sighting?, h]

section Load

variable {seen : List Sighting}

theorem loadScript_forget (hcache : cache.Justified seen) (hseen : Consistent seen)
    (hsighting : ∀ s, files.sighting? p path = some s → s ∈ seen)
    {entry : FileEntry} (hstat : files.stat (p.file path) = .ok entry) :
    (loadScript p files cache path (modifiedAt entry)).map LoadedFile.forget =
      (loadScript p files Table.empty path (modifiedAt entry)).map LoadedFile.forget := by
  cases entry with
  | directory => rfl
  | file content modified =>
    have hhere := hsighting _ (Files.sighting_of_stat hstat)
    cases hfind : FileCache.find? cache path modified with
    | none =>
      have hempty : FileCache.find? Table.empty path modified = none := rfl
      simp only [loadScript, modifiedAt, Option.bind_some, hfind, hempty]
    | some cached =>
      rcases FileCache.mem_of_find hfind with ⟨hmem, hmodified⟩
      rcases hcache _ hmem with ⟨old, hold, hload⟩
      have hsame : old = content := hseen _ hold _ hhere rfl hmodified
      rw [hsame] at hload
      have hempty : FileCache.find? Table.empty path modified = none := rfl
      simp only [loadScript, modifiedAt, Option.bind_some, hfind, hempty,
        Files.read_of_stat hstat, hload]
      rfl

theorem loadFile_forget (hcache : cache.Justified seen) (hseen : Consistent seen)
    (hsighting : ∀ s, files.sighting? p path = some s → s ∈ seen) :
    (loadFile p files cache path).1 = (loadFile p files Table.empty path).1 ∧
    (loadFile p files cache path).2.map LoadedFile.forget =
      (loadFile p files Table.empty path).2.map LoadedFile.forget := by
  unfold loadFile
  cases hstat : files.stat (p.file path) with
  | error e => exact ⟨rfl, rfl⟩
  | ok entry =>
    dsimp only
    split
    · exact ⟨rfl, loadScript_forget hcache hseen hsighting hstat⟩
    · exact ⟨rfl, rfl⟩

theorem loadFile_compiled {files' : Files} (h : loadFile p files cache path = (files', .ok file))
    (hcompiled : file.compiled = some modified) :
    ∃ content, files.sighting? p path = some ⟨path, modified, content⟩ ∧ file.found.path = path ∧
      LoadedModule.ofBytes path content = .ok ⟨file.found.code, file.found.imports⟩ := by
  cases loads_of_loadFile h with
  | cached | copied => cases hcompiled
  | @compiled entry _ _ hstat _ hread hload =>
    cases entry with
    | directory => cases hcompiled
    | file content time =>
      cases hcompiled
      rw [Files.read_of_stat hstat] at hread
      cases hread
      exact ⟨_, Files.sighting_of_stat hstat, rfl, hload⟩

end Load

/-!
# Crawls with and without a cache

With a cache and without one, visits go the same way one after the other.
-/

namespace Crawl

def forget (c : Crawl) : Crawl :=
  { c with cache := Table.empty }

theorem forget_addModule (c : Crawl) (file : LoadedFile) :
    (c.addModule file).forget = c.forget.addModule file.forget := by
  unfold addModule
  cases hadd : c.graph.add file.found with
  | ok added =>
    rw [show c.forget.graph.add file.forget.found = .ok added from hadd]
    rfl
  | error e =>
    rw [show c.forget.graph.add file.forget.found = .error e from hadd]
    rfl

theorem forget_accept (c : Crawl) (file : LoadedFile) :
    (c.accept file).forget = c.forget.accept file.forget := by
  rw [accept_eq, accept_eq, forget_addModule]
  rfl

theorem cache_accept (c : Crawl) (file : LoadedFile) :
    (c.accept file).cache = (c.remember file).cache := by
  rw [accept_eq, addModule_eq]
  rfl

section Visit

variable {c : Crawl} {seen : List Sighting}

theorem forget_visit (hcache : c.cache.Justified seen) (hseen : Consistent seen)
    (hsighting : ∀ s, c.files.sighting? p path = some s → s ∈ seen) :
    (c.visit p path).forget = (c.forget.visit p path).forget := by
  rcases loadFile_forget hcache hseen hsighting with ⟨hfiles, hresult⟩
  have hforget : loadFile p c.forget.files c.forget.cache path =
      loadFile p c.files Table.empty path := rfl
  unfold visit
  rw [hforget]
  rcases hload : loadFile p c.files c.cache path with ⟨files, e | file⟩ <;>
    rcases hfresh : loadFile p c.files Table.empty path with ⟨files₀, e₀ | file₀⟩ <;>
    rw [hload, hfresh] at hfiles hresult <;> cases hfiles
  · cases hresult
    rfl
  · cases hresult
  · cases hresult
  · have hfile : file.forget = file₀.forget := Except.ok.inj hresult
    change ({ c with files := files }.accept file).forget =
      ({ c.forget with files := files }.accept file₀).forget
    rw [forget_accept, forget_accept, hfile]
    rfl

theorem justified_visit (hcache : c.cache.Justified seen)
    (hsighting : ∀ s, c.files.sighting? p path = some s → s ∈ seen) :
    (c.visit p path).cache.Justified seen := by
  unfold visit
  rcases hload : loadFile p c.files c.cache path with ⟨files, e | file⟩
  · exact hcache
  · change ({ c with files := files }.accept file).cache.Justified seen
    rw [cache_accept]
    unfold remember
    split
    · rename_i modified hcompiled
      intro entry hentry
      rcases FileCache.mem_insert hentry with hold | rfl
      · exact hcache entry hold
      · rcases loadFile_compiled hload hcompiled with ⟨content, hhere, hpath, hofBytes⟩
        rw [hpath]
        exact ⟨content, hsighting _ hhere, hofBytes⟩
    · exact hcache

end Visit

theorem forget_foldl_visit {seen : List Sighting} (hseen : Consistent seen) (paths : List String)
    {c c' : Crawl} (hc : c.cache.Justified seen) (hc' : c'.cache.Justified seen)
    (hforget : c.forget = c'.forget) (hvisits : ∀ s ∈ seenOnVisits p paths c, s ∈ seen) :
    (paths.foldl (visit p) c).forget = (paths.foldl (visit p) c').forget ∧
    (paths.foldl (visit p) c).cache.Justified seen ∧
    (paths.foldl (visit p) c').cache.Justified seen := by
  induction paths generalizing c c' with
  | nil => exact ⟨hforget, hc, hc'⟩
  | cons path paths ih =>
    have hfiles : c'.files = c.files := (congrArg Crawl.files hforget).symm
    have hsighting : ∀ s, c.files.sighting? p path = some s → s ∈ seen := by
      intro s hs
      refine hvisits s (List.mem_append_left _ ?_)
      rw [hs]
      exact List.mem_singleton.mpr rfl
    have hsighting' : ∀ s, c'.files.sighting? p path = some s → s ∈ seen := by
      rw [hfiles]
      exact hsighting
    have hvisit : (c.visit p path).forget = (c'.visit p path).forget := by
      rw [forget_visit hc hseen hsighting, forget_visit hc' hseen hsighting', hforget]
    rw [List.foldl_cons, List.foldl_cons]
    exact ih (justified_visit hc hsighting) (justified_visit hc' hsighting') hvisit
      (fun s hs => hvisits s (List.mem_append_right _ hs))

theorem forget_rounds {seen : List Sighting} (hseen : Consistent seen) (n : Nat) {c c' : Crawl}
    (hc : c.cache.Justified seen) (hc' : c'.cache.Justified seen) (hforget : c.forget = c'.forget)
    (hrounds : ∀ s ∈ seenOnRounds p n c, s ∈ seen) :
    (rounds p n c).forget = (rounds p n c').forget ∧ (rounds p n c).cache.Justified seen := by
  induction n generalizing c c' with
  | zero => exact ⟨hforget, hc⟩
  | succ n ih =>
    have hnext : c'.next = c.next := (congrArg Crawl.next hforget).symm
    rw [rounds, rounds, hnext]
    rw [seenOnRounds] at hrounds
    cases hpaths : c.next with
    | nil => exact ⟨hforget, hc⟩
    | cons path paths =>
      rw [hpaths] at hrounds
      have hstart : ({ c with next := [] } : Crawl).forget = ({ c' with next := [] } : Crawl).forget :=
        congrArg (fun d => ({ d with next := [] } : Crawl)) hforget
      have hbegin : ({ c with next := [] } : Crawl).cache.Justified seen := hc
      have hbegin' : ({ c' with next := [] } : Crawl).cache.Justified seen := hc'
      rcases forget_foldl_visit hseen (path :: paths) hbegin hbegin' hstart
        (fun s hs => hrounds s (List.mem_append_left _ hs)) with ⟨hlast, hcache, hcache'⟩
      exact ih hcache hcache' hlast (fun s hs => hrounds s (List.mem_append_right _ hs))

/-- A crawl with a cache that can be trusted finds what a crawl without a cache
finds, and its cache can be trusted afterwards. -/
theorem forget_run {known : List Sighting} (hcache : cache.Justified known)
    (hseen : Consistent (known ++ seen p files cache)) :
    (run p files cache).forget = (run p files Table.empty).forget ∧
    (run p files cache).cache.Justified (known ++ seen p files cache) := by
  have hall : ∀ s ∈ seen p files cache, s ∈ known ++ seen p files cache :=
    fun s hs => List.mem_append_right known hs
  have hjustified : cache.Justified (known ++ seen p files cache) :=
    hcache.mono (fun s hs => List.mem_append_left _ hs)
  generalize known ++ seen p files cache = total at hseen hall hjustified ⊢
  unfold seen at hall
  unfold run
  generalize mostRounds = n at hall ⊢
  exact forget_rounds hseen n hjustified (.empty total) rfl hall

end Crawl
end ScriptBundler
