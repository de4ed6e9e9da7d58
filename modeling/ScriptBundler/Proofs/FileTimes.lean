import Mathlib.Data.List.Basic
import ScriptBundler.Proofs.BuildSteps
import ScriptBundler.Proofs.CachedCrawl

/-!
# Times of files

Every time in a tree of files is a proper one, and nothing that a build does to
the files changes that: a file is written at the time it is, and the time moves
on properly.
-/

namespace ScriptBundler

variable {files files' : Files} {path : String} {p : Project}

namespace Files

structure Timely (files : Files) : Prop where
  now : files.now.IsProper
  entries : ∀ entry ∈ files.entries, ∀ content modified,
    entry.2 = .file content modified → modified.IsProper

section
variable (h : files.Timely)
include h

theorem Timely.put (location : Location) {entry : FileEntry}
    (hentry : ∀ content modified, entry = .file content modified → modified.IsProper) :
    (files.put location entry).Timely := by
  constructor
  · exact h.now
  · intro other hother
    rcases List.mem_append.mp hother with hold | hnew
    · exact h.entries other (List.mem_of_mem_filter hold)
    · rw [List.mem_singleton.mp hnew]
      exact hentry

theorem Timely.putDirectory (location : Location) : (files.put location .directory).Timely :=
  h.put location (by intro content modified heq; cases heq)

theorem Timely.erase (location : Location) : (files.erase location).Timely :=
  ⟨h.now, fun entry hentry => h.entries entry (List.mem_of_mem_filter hentry)⟩

theorem Timely.tick : files.tick.Timely :=
  ⟨Timestamp.ofParts_isProper _ _, h.entries⟩

theorem Timely.isProper_of_stat {content : List UInt8} {modified : Timestamp}
    (hstat : files.stat path = .ok (.file content modified)) : modified.IsProper := by
  unfold stat at hstat
  split at hstat
  · cases hstat
  · rename_i location _
    split at hstat
    · rename_i entry hentry
      cases hstat
      unfold at? at hentry
      split at hentry
      · cases hentry
      · rcases List.lookup_eq_some_iff.mp hentry with ⟨before, after, hentries, _⟩
        refine h.entries (location, .file content modified) ?_ content modified rfl
        rw [hentries]
        exact List.mem_append_right _ List.mem_cons_self
    · cases hstat

end

theorem Timely.write (h : files.Timely) {content : List UInt8}
    (hwrite : files.write path content = .ok files') : files'.Timely := by
  unfold Files.write at hwrite
  split at hwrite
  · cases hwrite
    refine h.tick.put _ ?_
    intro content' modified heq
    cases heq
    exact h.now
  · cases hwrite

theorem Timely.copy (h : files.Timely) {source target : String}
    (hcopy : files.copy source target = .ok files') : files'.Timely := by
  unfold Files.copy at hcopy
  split at hcopy
  · cases hcopy
  · cases hcopy
  · split at hcopy
    · cases hcopy
    · split at hcopy
      · exact h.write hcopy
      · cases hcopy

theorem Timely.ensureDirectory (h : files.Timely)
    (hensure : files.ensureDirectory path = .ok files') : files'.Timely := by
  unfold Files.ensureDirectory at hensure
  cases hmake : files.makeDirectory path with
  | ok made =>
    rw [hmake] at hensure
    cases hensure
    unfold makeDirectory at hmake
    split at hmake
    · cases hmake
    · split at hmake
      · cases hmake
      · cases hmake
        exact h.putDirectory _
  | error e =>
    rw [hmake] at hensure
    dsimp only at hensure
    split at hensure
    · cases hensure
      exact h
    · cases hensure

theorem Timely.tryDirectory (h : files.Timely) (path : String) :
    (files.tryDirectory path).1.Timely := by
  unfold Files.tryDirectory
  split
  · rename_i made hmade
    exact h.ensureDirectory hmade
  · exact h

theorem Timely.makeDirectoriesWithin (h : files.Timely) (depth : Nat) (path : String) :
    (Files.makeDirectoriesWithin depth path files).1.Timely := by
  induction depth generalizing path with
  | zero =>
    rw [Files.makeDirectoriesWithin]
    split
    · exact h
    · exact h.tryDirectory path
  | succ depth ih =>
    have htry := h.tryDirectory path
    rw [Files.makeDirectoriesWithin]
    split
    · exact h
    · split
      · rename_i parent _ _
        have hparent := ih parent
        split
        · rename_i made hmade
          rw [hmade] at hparent
          exact hparent.tryDirectory path
        · exact hparent
      · exact htry

theorem Timely.makeDirectories (h : files.Timely) (path : String) :
    (files.makeDirectories path).1.Timely :=
  h.makeDirectoriesWithin _ path

end Files

theorem loadFile_timely (h : files.Timely) (cache : FileCache) (path : String) :
    (loadFile p files cache path).1.Timely := by
  have hmade := h.makeDirectories p.outDir
  rcases loadFile_files p files cache path with heq | ⟨_, heq | hcopy⟩
  · rwa [heq]
  · rwa [heq]
  · exact hmade.copy hcopy

namespace Crawl

theorem files_accept (c : Crawl) (file : LoadedFile) : (c.accept file).files = c.files := by
  rw [accept_eq, addModule_eq]
  rfl

theorem files_visit (p : Project) (c : Crawl) (path : String) :
    (c.visit p path).files = (loadFile p c.files c.cache path).1 := by
  unfold visit
  split
  · rename_i files file hload
    rw [files_accept, hload]
  · rename_i files e hload
    rw [hload]
    rfl

theorem seenOnVisits_isProper (paths : List String) {c : Crawl} (h : c.files.Timely) :
    (∀ s ∈ seenOnVisits p paths c, s.modified.IsProper) ∧
      (paths.foldl (visit p) c).files.Timely := by
  induction paths generalizing c with
  | nil =>
    refine ⟨?_, h⟩
    intro s hs
    cases hs
  | cons path paths ih =>
    have hvisit : (c.visit p path).files.Timely := by
      rw [files_visit]
      exact loadFile_timely h c.cache path
    refine ⟨?_, (ih hvisit).2⟩
    intro s hs
    rcases List.mem_append.mp hs with hhere | hlater
    · rw [Option.mem_toList, Files.sighting?] at hhere
      split at hhere
      · rename_i content modified hstat
        cases hhere
        exact h.isProper_of_stat hstat
      · cases hhere
    · exact (ih hvisit).1 s hlater

theorem seenOnRounds_isProper (n : Nat) {c : Crawl} (h : c.files.Timely) :
    (∀ s ∈ seenOnRounds p n c, s.modified.IsProper) ∧ (rounds p n c).files.Timely := by
  induction n generalizing c with
  | zero =>
    refine ⟨?_, h⟩
    intro s hs
    cases hs
  | succ n ih =>
    rw [seenOnRounds, rounds]
    cases hnext : c.next with
    | nil =>
      refine ⟨?_, h⟩
      intro s hs
      cases hs
    | cons path paths =>
      have hbegin : ({ c with next := [] } : Crawl).files.Timely := h
      rcases seenOnVisits_isProper (path :: paths) hbegin with ⟨hvisits, hfiles⟩
      refine ⟨?_, (ih hfiles).2⟩
      intro s hs
      rcases List.mem_append.mp hs with hvisit | hlater
      · exact hvisits s hvisit
      · exact (ih hfiles).1 s hlater

theorem seen_isProper (h : files.Timely) (cache : FileCache) :
    (∀ s ∈ seen p files cache, s.modified.IsProper) ∧ (run p files cache).files.Timely := by
  unfold seen run
  generalize mostRounds = n
  exact seenOnRounds_isProper n h

end Crawl

namespace Build

theorem Preserves.crawl {P : Workspace → Prop}
    (h : ∀ w, P w → P ⟨(Crawl.run p w.files w.cache).files, (Crawl.run p w.files w.cache).cache,
      (Crawl.run p w.files w.cache).found⟩) :
    Preserves P (crawl p) := by
  intro w hw
  have hcrawl := h w hw
  rw [crawl_apply]
  generalize Crawl.run p w.files w.cache = c at hcrawl ⊢
  split
  · exact hcrawl
  · exact hcrawl

end Build
end ScriptBundler
