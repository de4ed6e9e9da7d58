import Mathlib.Data.List.Basic
import ScriptBundler.Proofs.FileTimes

/-!
# Builds one after the other

Files are changed, bundles are built, and the bundler is started again with
another configuration and, perhaps, the cache that was kept.  Whatever the order
of these events, a build gives what it would give without a cache.
-/

namespace ScriptBundler

/-!
# What a build makes of the cache

A cache whose entries were compiled from what is there has no influence on what a
build gives and on the files that it writes.
-/

namespace Build

variable {α β : Type}

def answer : EStateM.Result (List BundleError) Workspace α → Except (List BundleError) α
  | .ok a _ => .ok a
  | .error errors _ => .error errors

/-- The same answer and the same files, though perhaps another cache. -/
inductive Alike : EStateM.Result (List BundleError) Workspace α →
    EStateM.Result (List BundleError) Workspace α → Prop where
  | ok (a : α) {w w' : Workspace} : w.files = w'.files → Alike (.ok a w) (.ok a w')
  | error (errors : List BundleError) {w w' : Workspace} :
      w.files = w'.files → Alike (.error errors w) (.error errors w')

/-- The cache has no influence on the answer. -/
def BlindAnswer (x : Build α) : Prop :=
  ∀ w w', w.files = w'.files → answer (x w) = answer (x w')

def Blind (x : Build α) : Prop :=
  ∀ w w', w.files = w'.files → Alike (x w) (x w')

theorem answer_bind_pure (x : Build α) (f : α → β) (w : Workspace) :
    answer ((x >>= fun a => pure (f a)) w) = (answer (x w)).map f := by
  rw [bind_apply]
  cases x w with
  | ok a w₁ => rfl
  | error errors w₁ => rfl

theorem Blind.bind_answer {x : Build α} {f : α → Build β} (hx : Blind x)
    (hf : ∀ a, BlindAnswer (f a)) : BlindAnswer (x >>= f) := by
  intro w w' hfiles
  have hstep := hx w w' hfiles
  rw [bind_apply, bind_apply]
  generalize x w = r at hstep ⊢
  generalize x w' = r' at hstep ⊢
  cases hstep with
  | ok a hleft => exact hf a _ _ hleft
  | error errors _ => rfl

theorem Blind.bind {x : Build α} {f : α → Build β} (hx : Blind x) (hf : ∀ a, Blind (f a)) :
    Blind (x >>= f) := by
  intro w w' hfiles
  have hstep := hx w w' hfiles
  rw [bind_apply, bind_apply]
  generalize x w = r at hstep ⊢
  generalize x w' = r' at hstep ⊢
  cases hstep with
  | ok a hleft => exact hf a _ _ hleft
  | error errors hleft => exact .error errors hleft

theorem Blind.pure (a : α) : Blind (pure a : Build α) :=
  fun _ _ hfiles => .ok a hfiles

theorem Blind.changeFiles (change : Files → Files × Option FileError) :
    Blind (changeFiles change) := by
  intro w w' hfiles
  rw [changeFiles_apply, changeFiles_apply, hfiles]
  rcases change w'.files with ⟨files, _ | e⟩
  · exact .ok () rfl
  · exact .error [.file e] rfl

theorem Blind.writePage (p : Project) : Blind (writePage p) := by
  intro w w' hfiles
  rw [writePage_apply, writePage_apply, hfiles]
  split
  · exact .ok none hfiles
  · split
    · rename_i e _
      exact .error [e] hfiles
    · exact ((Blind.changeFiles _).bind
        (fun _ => (Blind.changeFiles _).bind (fun _ => .pure _))) w w' hfiles

theorem save_eq (cache cache' : FileCache) (files : Files) (dir : String) :
    (FileCache.save cache files dir).2 = (FileCache.save cache' files dir).2 := by
  unfold FileCache.save
  split
  · rfl
  · rename_i made _
    unfold Files.writeText Files.write
    cases made.locateFile (FilePath.join dir FileCache.fileName) with
    | ok location => rfl
    | error e => rfl

theorem blindAnswer_saveCache (p : Project) : BlindAnswer (saveCache p) := by
  intro w w' hfiles
  rw [saveCache_apply, saveCache_apply, hfiles]
  split
  · rw [answer, answer, save_eq w.cache w'.cache]
  · rfl

end Build

namespace Project

open Build

theorem blindAnswer_finish (p : Project) (c : Crawl) : BlindAnswer (p.finish c) := by
  refine (Blind.changeFiles _).bind_answer (fun _ => (Blind.writePage p).bind_answer ?_)
  intro page w w' hfiles
  rw [answer_bind_pure, answer_bind_pure, blindAnswer_saveCache p w w' hfiles]

theorem finish_forget (p : Project) (c : Crawl) : p.finish c.forget = p.finish c :=
  rfl

theorem cache_finish (p : Project) (c : Crawl) (w : Workspace) :
    (left (p.finish c w)).cache = w.cache := by
  refine preserves_finish (P := fun w' => w'.cache = w.cache) ?_ ?_ ?_ c w rfl
  · intro w' hcache
    exact Eq.trans rfl hcache
  · intro w' path text files hcache _
    exact Eq.trans rfl hcache
  · intro w' hcache
    exact Eq.trans rfl hcache

theorem run_fst (p : Project) (w : Workspace) : (p.run w).1 = answer (p.build w) := by
  unfold run
  cases p.build w with
  | ok output w' => rfl
  | error errors w' => rfl

theorem run_snd (p : Project) (w : Workspace) : (p.run w).2 = left (p.build w) := by
  unfold run
  cases p.build w with
  | ok output w' => rfl
  | error errors w' => rfl

def sightings (p : Project) (w : Workspace) : List Sighting :=
  match w.files.makeDirectories p.outDir with
  | (files, none) => Crawl.seen p files w.cache
  | (_, some _) => []

theorem crawl_finish_apply (p : Project) (w : Workspace) :
    (crawl p >>= p.finish) w =
      if (Crawl.run p w.files w.cache).errors.isEmpty then
        p.finish (Crawl.run p w.files w.cache).forget ⟨(Crawl.run p w.files w.cache).files,
          (Crawl.run p w.files w.cache).cache, (Crawl.run p w.files w.cache).found⟩
      else
        .error (Crawl.run p w.files w.cache).errors ⟨(Crawl.run p w.files w.cache).files,
          (Crawl.run p w.files w.cache).cache, (Crawl.run p w.files w.cache).found⟩ := by
  rw [bind_apply, crawl_apply, finish_forget]
  generalize Crawl.run p w.files w.cache = c
  cases c.errors.isEmpty with
  | true => rfl
  | false => rfl

/-- A build with a cache that can be trusted gives what it gives without one. -/
theorem run_transparent {p : Project} {w : Workspace} {known : List Sighting}
    (hcache : w.cache.Justified known) (hseen : Consistent (known ++ p.sightings w)) :
    (p.run w).1 = (p.run ⟨w.files, Table.empty, []⟩).1 ∧
    (p.run w).2.cache.Justified (known ++ p.sightings w) := by
  rw [run_fst, run_fst, run_snd, build_eq, bind_apply, bind_apply, changeFiles_apply,
    changeFiles_apply]
  unfold sightings at hseen ⊢
  rcases hmade : w.files.makeDirectories p.outDir with ⟨files, _ | e⟩
  · rw [hmade] at hseen
    rcases Crawl.forget_run hcache hseen with ⟨hforget, hjustified⟩
    dsimp only
    rw [crawl_finish_apply, crawl_finish_apply]
    dsimp only
    generalize Crawl.run p files w.cache = c at hforget hjustified ⊢
    generalize Crawl.run p files Table.empty = c₀ at hforget ⊢
    have herrors : c.forget.errors = c₀.forget.errors := by rw [hforget]
    have hfiles : c.forget.files = c₀.forget.files := by rw [hforget]
    change c.errors = c₀.errors at herrors
    rw [hforget, herrors]
    by_cases hempty : c₀.errors.isEmpty = true
    · rw [if_pos hempty, if_pos hempty]
      refine ⟨blindAnswer_finish p c₀.forget _ _ hfiles, ?_⟩
      rw [cache_finish]
      exact hjustified
    · rw [if_neg hempty, if_neg hempty]
      exact ⟨rfl, hjustified⟩
  · exact ⟨rfl, hcache.mono (fun s hs => List.mem_append_left _ hs)⟩

theorem timely_save {files : Files} (h : files.Timely) (cache : FileCache) (dir : String) :
    (FileCache.save cache files dir).1.Timely := by
  have hdirs := h.makeDirectories dir
  unfold FileCache.save
  split
  · rename_i made e hmade
    rw [hmade] at hdirs
    exact hdirs
  · rename_i made hmade
    rw [hmade] at hdirs
    split
    · rename_i written hwrite
      exact hdirs.write hwrite
    · exact hdirs

theorem timely_run (p : Project) {w : Workspace} (h : w.files.Timely) :
    (p.run w).2.files.Timely := by
  rw [run_snd, build_eq]
  have hdirs : ∀ w : Workspace, w.files.Timely →
      ({ w with files := (w.files.makeDirectories p.outDir).1 } : Workspace).files.Timely :=
    fun w hw => hw.makeDirectories p.outDir
  refine Preserves.bind (P := fun w => w.files.Timely) (Preserves.changeFiles hdirs)
    (fun _ => Preserves.bind ?_ (fun c => ?_)) w h
  · refine Preserves.crawl ?_
    intro w hw
    have hcrawl := (Crawl.seen_isProper (p := p) hw w.cache).2
    generalize Crawl.run p w.files w.cache = c at hcrawl ⊢
    exact hcrawl
  · exact preserves_finish hdirs (fun w path text files hw hwrite => hw.write hwrite)
      (fun w hw => timely_save hw w.cache _) c

theorem sightings_isProper (p : Project) {w : Workspace} (h : w.files.Timely) :
    ∀ s ∈ p.sightings w, s.modified.IsProper := by
  have hdirs := h.makeDirectories p.outDir
  unfold sightings
  split
  · rename_i files hmade
    rw [hmade] at hdirs
    exact (Crawl.seen_isProper hdirs w.cache).1
  · intro s hs
    cases hs

end Project

/-!
# Sessions

Events change the files, build a bundle or start the bundler again.
-/

inductive Event where
  /-- A file is written, and gets a time of modification. -/
  | write (location : Location) (content : List UInt8) (seconds nanoseconds : Nat)
  | makeDirectory (location : Location)
  /-- A file is removed, or a directory with everything in it. -/
  | remove (location : Location)
  | build
  /-- The bundler is started again, perhaps with another configuration. -/
  | reopen (config : Config)

/-- A bundler at work on a project, with what has happened so far. -/
structure Session where
  project : Project
  workspace : Workspace
  /-- The contents that builds have seen. -/
  seen : List Sighting
  /-- The texts that were written to keep the cache. -/
  saved : List String

namespace Session

def start (project : Project) (workDir : Location) (seconds nanoseconds : Nat) : Session :=
  ⟨project, ⟨⟨[], workDir, .ofParts seconds nanoseconds⟩, Table.empty, []⟩, [], []⟩

def withFiles (s : Session) (files : Files) : Session :=
  { s with workspace := { s.workspace with files := files } }

def answer (s : Session) : Except (List BundleError) BundleOutput :=
  (s.project.run s.workspace).1

/-- The answer of a build by a bundler that starts without a cache. -/
def freshAnswer (s : Session) : Except (List BundleError) BundleOutput :=
  (s.project.run ⟨s.workspace.files, Table.empty, []⟩).1

def cacheText (s : Session) : List String :=
  match s.answer with
  | .ok _ =>
    if s.project.config.permanentCache.enable then
      [FileCache.toText (s.project.run s.workspace).2.cache]
    else []
  | .error _ => []

def step (s : Session) : Event → Session
  | .write location content seconds nanoseconds =>
    s.withFiles (s.workspace.files.put location
      (.file content (.ofParts seconds nanoseconds)))
  | .makeDirectory location => s.withFiles (s.workspace.files.put location .directory)
  | .remove location => s.withFiles (s.workspace.files.erase location)
  | .build =>
    { s with
      workspace := (s.project.run s.workspace).2
      seen := s.seen ++ s.project.sightings s.workspace
      saved := s.saved ++ s.cacheText }
  | .reopen config =>
    { s with
      project := { s.project with config := config }
      workspace :=
        ({ s.project with config := config } : Project).openWorkspace s.workspace.files }

def run (s : Session) (events : List Event) : Session :=
  events.foldl step s

/-- Whether the file of a kept cache, if it can be read, holds a text that was
written to keep a cache. -/
def holdsSaved (s : Session) (config : Config) : Bool :=
  match s.workspace.files.readText
    (FilePath.join (s.project.file config.permanentCache.dirName) FileCache.fileName) with
  | .ok text => s.saved.contains text
  | .error _ => true

/-- No cache is read that was not written to keep a cache. -/
def Permits (s : Session) : Event → Prop
  | .reopen config => config.permanentCache.enable = true → s.holdsSaved config = true
  | _ => True

instance (s : Session) : (event : Event) → Decidable (s.Permits event)
  | .write _ _ _ _ | .makeDirectory _ | .remove _ | .build => inferInstanceAs (Decidable True)
  | .reopen config =>
    inferInstanceAs (Decidable
      (config.permanentCache.enable = true → s.holdsSaved config = true))

/-- On the way through some events, no cache is read that was not written. -/
def Faithful : Session → List Event → Prop
  | _, [] => True
  | s, event :: rest => s.Permits event ∧ (s.step event).Faithful rest

instance decidableFaithful : (s : Session) → (events : List Event) → Decidable (s.Faithful events)
  | _, [] => inferInstanceAs (Decidable True)
  | s, event :: rest =>
    haveI := decidableFaithful (s.step event) rest
    inferInstanceAs (Decidable (s.Permits event ∧ (s.step event).Faithful rest))

/-!
# The cache in a session

Every entry of the cache was compiled from a content that has been seen in the
session.
-/

/-- The cache, and every cache that was kept, can be trusted. -/
structure Sound (s : Session) : Prop where
  timely : s.workspace.files.Timely
  proper : ∀ sighting ∈ s.seen, sighting.modified.IsProper
  cache : s.workspace.cache.Justified s.seen
  saved : ∀ text ∈ s.saved, ∃ cache : FileCache, cache.Justified s.seen ∧ text = cache.toText

theorem sound_start (project : Project) (workDir : Location) (seconds nanoseconds : Nat) :
    (start project workDir seconds nanoseconds).Sound where
  timely := ⟨Timestamp.ofParts_isProper _ _, by intro entry hentry; cases hentry⟩
  proper := by
    intro sighting hsighting
    cases hsighting
  cache := .empty _
  saved := by
    intro text htext
    cases htext

theorem Sound.withFiles {s : Session} (h : s.Sound) {files : Files} (hfiles : files.Timely) :
    (s.withFiles files).Sound :=
  ⟨hfiles, h.proper, h.cache, h.saved⟩

theorem Sound.load {s : Session} (h : s.Sound) {config : Config}
    (hpermits : s.Permits (.reopen config)) (henable : config.permanentCache.enable = true) :
    (FileCache.load s.workspace.files
      (s.project.file config.permanentCache.dirName)).Justified s.seen := by
  have hread : s.holdsSaved config = true := hpermits henable
  unfold holdsSaved at hread
  unfold FileCache.load
  split
  · exact .empty _
  · rename_i text htext
    rw [htext] at hread
    rcases h.saved text (List.contains_iff_mem.mp hread) with ⟨cache, hcache, rfl⟩
    have hproper : ∀ entry ∈ cache.entries, entry.2.modified.IsProper := by
      intro entry hentry
      rcases hcache entry hentry with ⟨content, hseen, _⟩
      exact h.proper _ hseen
    split
    · rename_i restored hofText
      have hrestored := (FileCache.ofText_toText_eq_ok_iff hproper).mp hofText
      intro entry hentry
      exact hcache entry (FileCache.mem_of_restored hrestored hentry)
    · exact .empty _

theorem Sound.build {s : Session} (h : s.Sound)
    (hseen : Consistent (s.seen ++ s.project.sightings s.workspace)) : (s.step .build).Sound := by
  have hcache := (Project.run_transparent h.cache hseen).2
  have hfiles := Project.timely_run s.project h.timely
  have hworkspace : (s.step .build).workspace = (s.project.run s.workspace).2 := rfl
  constructor
  · rw [hworkspace]
    exact hfiles
  · intro sighting hsighting
    rcases List.mem_append.mp hsighting with hold | hnew
    · exact h.proper sighting hold
    · exact Project.sightings_isProper s.project h.timely sighting hnew
  · rw [hworkspace]
    exact hcache
  · intro text htext
    rcases List.mem_append.mp htext with hold | hnew
    · rcases h.saved text hold with ⟨cache, hjustified, htext⟩
      exact ⟨cache, hjustified.mono (fun x hx => List.mem_append_left _ hx), htext⟩
    · unfold cacheText at hnew
      split at hnew
      · split at hnew
        · exact ⟨_, hcache, List.mem_singleton.mp hnew⟩
        · cases hnew
      · cases hnew

theorem Sound.step {s : Session} (h : s.Sound) {event : Event} (hpermits : s.Permits event)
    (hseen : Consistent (s.step event).seen) : (s.step event).Sound := by
  cases event with
  | write location content seconds nanoseconds =>
    refine h.withFiles (h.timely.put location ?_)
    intro content' modified heq
    cases heq
    exact Timestamp.ofParts_isProper _ _
  | makeDirectory location => exact h.withFiles (h.timely.putDirectory location)
  | remove location => exact h.withFiles (h.timely.erase location)
  | build => exact h.build hseen
  | reopen config =>
    refine ⟨h.timely, h.proper, ?_, h.saved⟩
    change FileCache.Justified (if config.permanentCache.enable then _ else _) s.seen
    split
    · rename_i henable
      exact h.load hpermits henable
    · exact .empty _

theorem seen_step (s : Session) (event : Event) : ∀ x ∈ s.seen, x ∈ (s.step event).seen := by
  intro x hx
  cases event with
  | build => exact List.mem_append_left _ hx
  | write location content seconds nanoseconds => exact hx
  | makeDirectory location => exact hx
  | remove location => exact hx
  | reopen config => exact hx

theorem seen_run (s : Session) (events : List Event) : ∀ x ∈ s.seen, x ∈ (s.run events).seen := by
  induction events generalizing s with
  | nil => exact fun x hx => hx
  | cons event events ih =>
    intro x hx
    exact ih (s.step event) x (seen_step s event x hx)

theorem Consistent.mono {seen seen' : List Sighting} (h : Consistent seen')
    (hsub : ∀ x ∈ seen, x ∈ seen') : Consistent seen :=
  fun a ha b hb => h a (hsub a ha) b (hsub b hb)

theorem Sound.run {s : Session} (h : s.Sound) {before after : List Event}
    (hfaithful : s.Faithful (before ++ after)) (hseen : Consistent (s.run (before ++ after)).seen) :
    (s.run before).Sound ∧ (s.run before).Faithful after := by
  induction before generalizing s with
  | nil => exact ⟨h, hfaithful⟩
  | cons event before ih =>
    have hstep : Consistent (s.step event).seen :=
      Consistent.mono hseen (seen_run (s.step event) (before ++ after))
    exact ih (h.step hfaithful.1 hstep) hfaithful.2 hseen

/-- Caching is transparent: in every session in which contents of a path with
the same time are the same, a build answers as it would without a cache. -/
theorem build_transparent (project : Project) (workDir : Location) (seconds nanoseconds : Nat)
    (before after : List Event)
    (hfaithful : (start project workDir seconds nanoseconds).Faithful (before ++ .build :: after))
    (hseen : Consistent
      ((start project workDir seconds nanoseconds).run (before ++ .build :: after)).seen) :
    ((start project workDir seconds nanoseconds).run before).answer =
      ((start project workDir seconds nanoseconds).run before).freshAnswer := by
  have hsound := ((sound_start project workDir seconds nanoseconds).run hfaithful hseen).1
  have hrun : (start project workDir seconds nanoseconds).run (before ++ .build :: after) =
      (((start project workDir seconds nanoseconds).run before).step .build).run after := by
    simp [run]
  rw [hrun] at hseen
  generalize (start project workDir seconds nanoseconds).run before = s at hsound hseen ⊢
  have hbuild : Consistent (s.seen ++ s.project.sightings s.workspace) :=
    Consistent.mono hseen (seen_run (s.step .build) after)
  exact (Project.run_transparent hsound.cache hbuild).1

def editEvents : List Event :=
  [.write ["a.js"] (Utf8.encode "require('./b')") 1 0, .write ["b.js"] [] 2 0, .build,
    .write ["b.js"] (Utf8.encode "x=1") 3 0]

theorem build_transparent_edit :
    ((start (.ofEntry "a.js") [] 4 0).run editEvents).workspace.cache.size = 2 ∧
    ((start (.ofEntry "a.js") [] 4 0).run editEvents).answer =
      ((start (.ofEntry "a.js") [] 4 0).run editEvents).freshAnswer := by
  have hfaithful : (start (.ofEntry "a.js") [] 4 0).Faithful (editEvents ++ [.build]) := by
    decide +kernel
  have hseen : Consistent ((start (.ofEntry "a.js") [] 4 0).run (editEvents ++ [.build])).seen := by
    decide +kernel
  have hcache : ((start (.ofEntry "a.js") [] 4 0).run editEvents).workspace.cache.size = 2 := by
    decide +kernel
  exact ⟨hcache, build_transparent (.ofEntry "a.js") [] 4 0 editEvents [] hfaithful hseen⟩

end Session
end ScriptBundler
