import Mathlib.Data.List.Basic
import ScriptBundler.Proofs.Frontiers
import ScriptBundler.Proofs.Resolution

/-!
# Canonical paths

The segments of a canonical path are names, and so the path leads to just one
place below the root of the project.  Following a specifier from a canonical
path gives a canonical path again, unless the specifier has an empty segment in
front of another one.
-/

namespace ScriptBundler

variable {path : String} {files : Files}

/-!
# Following specifiers

A name is put behind the others and two points take one away, so segments stay
names.
-/

namespace ModulePath

def Canonical (path : String) : Prop :=
  ∀ segment ∈ segments path, Files.IsName segment

instance (path : String) : Decidable (Canonical path) :=
  inferInstanceAs (Decidable (∀ segment ∈ segments path, Files.IsName segment))

/-- There is an empty segment at most at the end, behind another segment. -/
def IsPlain (specifier : String) : Prop :=
  "" ∉ (namedBy specifier).dropLast ∧ namedBy specifier ≠ [""]

instance (specifier : String) : Decidable (IsPlain specifier) :=
  inferInstanceAs (Decidable (_ ∧ _))

theorem isName_of_not_isStep {segment : String} (hne : segment ≠ "") (hstep : ¬ IsStep segment) :
    Files.IsName segment :=
  ⟨hne, fun h => hstep (Or.inl h), fun h => hstep (Or.inr h)⟩

theorem isName_foldl_follow {named dir : List String} (hdir : ∀ segment ∈ dir, Files.IsName segment)
    (hnamed : "" ∉ named) : ∀ segment ∈ named.foldl follow dir, Files.IsName segment := by
  intro segment hsegment
  rcases mem_foldl_follow hsegment with hold | ⟨hnew, hstep⟩
  · exact hdir segment hold
  · exact isName_of_not_isStep (fun h => hnamed (h ▸ hnew)) hstep

/-- All segments of a path are names, but for an empty one that may be at its
end. -/
structure NearlyCanonical (path : List String) : Prop where
  front : ∀ segment ∈ path.dropLast, Files.IsName segment
  last : ∀ segment, path.getLast? = some segment → segment = "" ∨ Files.IsName segment

theorem nearlyCanonical_of_isName {path : List String}
    (h : ∀ segment ∈ path, Files.IsName segment) : NearlyCanonical path :=
  ⟨fun segment hsegment => h segment (List.mem_of_mem_dropLast hsegment),
    fun segment hsegment => Or.inr (h segment (List.mem_of_getLast? hsegment))⟩

theorem nearlyCanonical_foldl_follow {named dir : List String}
    (hdir : ∀ segment ∈ dir, Files.IsName segment) (hempty : "" ∉ named.dropLast) :
    NearlyCanonical (named.foldl follow dir) := by
  rcases List.eq_nil_or_concat' named with rfl | ⟨front, last, rfl⟩
  · exact nearlyCanonical_of_isName hdir
  · rw [List.dropLast_concat] at hempty
    have hfront := isName_foldl_follow hdir hempty
    by_cases hnone : last = ""
    · rw [List.foldl_append, hnone]
      change NearlyCanonical (front.foldl follow dir ++ [""])
      constructor
      · rw [List.dropLast_concat]
        exact hfront
      · intro segment hsegment
        rw [List.getLast?_concat] at hsegment
        exact Or.inl (Option.some.inj hsegment).symm
    · refine nearlyCanonical_of_isName (isName_foldl_follow hdir fun hmem => ?_)
      rcases List.mem_append.mp hmem with hmem | hmem
      · exact hempty hmem
      · exact hnone (List.mem_singleton.mp hmem).symm

theorem nearlyCanonical_resolveSegments {specifier importer : String} (hplain : IsPlain specifier)
    (himporter : Canonical importer) : NearlyCanonical (resolveSegments specifier importer) := by
  have horigin : ∀ segment ∈ origin specifier importer, Files.IsName segment := by
    unfold origin
    split
    · exact fun segment hsegment => himporter segment (List.mem_of_mem_dropLast hsegment)
    · exact List.forall_mem_singleton.mpr (by decide)
  obtain ⟨named, hnamed, heq⟩ := resolveSegments_eq specifier importer
  rw [heq]
  rcases hnamed with hnamed | ⟨name, hname, hnamed⟩
  · exact nearlyCanonical_foldl_follow horigin (hnamed ▸ hplain.1)
  · refine nearlyCanonical_foldl_follow horigin fun hmem => hplain.2 ?_
    rw [hnamed] at hmem
    rw [hname, ← List.mem_singleton.mp hmem]

/-- A plain specifier leads from a canonical path to a canonical path. -/
theorem canonical_resolve {specifier importer : String} (hplain : IsPlain specifier)
    (himporter : Canonical importer) : Canonical (resolve specifier importer) := by
  have hpath := nearlyCanonical_resolveSegments hplain himporter
  intro segment hsegment
  rw [segments_resolve, completed] at hsegment
  generalize resolveSegments specifier importer = path at hpath hsegment
  rcases List.eq_nil_or_concat' path with rfl | ⟨front, last, rfl⟩
  · rw [List.mem_singleton.mp hsegment]
    decide
  · have hfront := hpath.front
    have hlast := hpath.last last List.getLast?_concat
    rw [List.dropLast_concat] at hfront
    rw [hasExtension, List.getLast?_concat, List.dropLast_concat] at hsegment
    split at hsegment
    · rename_i hpoint
      rcases List.mem_append.mp hsegment with hold | hnew
      · exact hfront segment hold
      · rw [List.mem_singleton.mp hnew]
        refine hlast.resolve_left ?_
        rintro rfl
        cases hpoint
    · rcases List.mem_append.mp hsegment with hold | hnew
      · exact hfront segment hold
      · rw [List.mem_singleton.mp hnew]
        refine isName_of_not_isStep (fun heq => ?_) (not_isStep_extended last)
        exact absurd (congrArg String.length heq) (by simp)

/-!
# Where canonical paths lead

No part of a canonical path stays or leads up.
-/

theorem segments_injective {path other : String} (h : segments path = segments other) :
    path = other := by
  rw [← intercalate_segments path, h, intercalate_segments]

theorem Canonical.isAbsolute (h : Canonical path) : FilePath.isAbsolute path = false := by
  unfold FilePath.isAbsolute
  rw [beq_eq_false_iff_ne]
  intro hfirst
  have hempty : "" ∈ segments path := by
    cases hpath : path.toList with
    | nil =>
      rw [hpath] at hfirst
      cases hfirst
    | cons c cs =>
      rw [hpath] at hfirst
      cases hfirst
      rw [segments, hpath, Text.split_cons_cut rfl]
      exact List.mem_cons_self
  exact (h "" hempty).ne_empty rfl

end ModulePath

namespace Files

theorem walk_of_isName {here there : Location} {names : List String}
    (hnames : ∀ name ∈ names, IsName name) (h : files.walk here names = .ok there) :
    there = here ++ names := by
  induction names generalizing here with
  | nil =>
    cases h
    simp
  | cons name names ih =>
    rcases walk_cons_ok h with ⟨next, hstep, hrest⟩
    rw [ih (fun other hother => hnames other (List.mem_cons_of_mem _ hother)) hrest,
      step_of_isName (hnames name List.mem_cons_self) hstep]
    simp

def walkFrom (files : Files) (dir : String) : Except FileError Location :=
  files.walk (if FilePath.isAbsolute dir then [] else files.workDir) (FilePath.parts dir)

theorem walk_of_empty {here : Location} (h : files.at? here = some .directory) :
    files.walk here [""] = .ok here := by
  rw [walk, step, h]
  rfl

theorem directory_of_walk {here there : Location}
    (h : files.walk here (FilePath.parts path) = .ok there) : files.at? here = some .directory := by
  rcases List.exists_cons_of_ne_nil (FilePath.parts_ne_nil path) with ⟨first, rest, hparts⟩
  rw [hparts] at h
  rcases walk_cons_ok h with ⟨next, hstep, _⟩
  exact directory_of_step hstep

/-- A canonical path leads from a directory to the place below it that has the
segments of the path as its names. -/
theorem location_of_canonical {dir path : String} (hpath : ModulePath.Canonical path)
    {location : Location} (h : files.locate (FilePath.join dir path) = .ok location) :
    ∃ here, files.walkFrom dir = .ok here ∧ location = here ++ ModulePath.segments path := by
  have hwalk := (locate_eq_ok_iff.mp h).2.2.2
  rcases FilePath.parts_join_of_relative hpath.isAbsolute dir with
    ⟨habsolute, before, hparts, hdir⟩
  rw [habsolute, hparts] at hwalk
  rcases walk_append_ok hwalk with ⟨here, hhere, hdown⟩
  refine ⟨here, ?_, walk_of_isName hpath hdown⟩
  unfold walkFrom
  rcases hdir with hdir | hdir
  · rw [hdir, hhere]
  · rw [hdir, walk_append, hhere]
    exact walk_of_empty (directory_of_walk hdown)

end Files

namespace Project

def specifiersAt (p : Project) (files : Files) (path : String) : List String :=
  if Asset.isScript path then
    match files.read (p.file path) with
    | .ok content =>
      match Program.ofSource (Utf8.decodeLossy content) with
      | .ok program => program.sources.map unquote
      | .error _ => []
    | .error _ => []
  else []

theorem mem_importsAt_cases {p : Project} {cache : FileCache} {path target : String}
    (h : target ∈ p.importsAt files cache path) :
    (∃ entry ∈ cache.entries, target ∈ entry.2.imports) ∨
      ∃ specifier ∈ p.specifiersAt files path, target = ModulePath.resolve specifier path := by
  unfold importsAt at h
  rcases hload : loadFile p files cache path with ⟨files', e | file⟩
  · rw [hload] at h
    cases h
  · rw [hload] at h
    cases loads_of_loadFile hload with
    | copied => cases h
    | cached _ _ hfind =>
      rcases Option.bind_eq_some_iff.mp hfind with ⟨modified, _, hfind⟩
      exact Or.inl ⟨_, (FileCache.mem_of_find hfind).1, h⟩
    | compiled _ hscript hread hcompiled =>
      unfold LoadedModule.ofBytes LoadedModule.ofText at hcompiled
      split at hcompiled
      · rename_i program hparsed
        cases hcompiled
        rcases List.mem_map.mp h with ⟨raw, hraw, rfl⟩
        refine Or.inr ⟨unquote raw, ?_, rfl⟩
        rw [specifiersAt, hscript, if_pos rfl, hread]
        dsimp only
        rw [hparsed]
        exact List.mem_map_of_mem hraw
      · cases hcompiled

theorem canonical_of_importChain {p : Project} {cache : FileCache}
    (hcache : ∀ entry ∈ cache.entries, ∀ path ∈ entry.2.imports, ModulePath.Canonical path)
    (hentry : ModulePath.Canonical p.entryPath)
    (hplain : ∀ n path, ImportChain (p.importsAt files cache) p.entryPath n path →
      ∀ specifier ∈ p.specifiersAt files path, ModulePath.IsPlain specifier)
    {n : Nat} (h : ImportChain (p.importsAt files cache) p.entryPath n path) :
    ModulePath.Canonical path := by
  induction h with
  | entry => exact hentry
  | step hchain htarget ih =>
    rcases mem_importsAt_cases htarget with ⟨entry, hentry, hmem⟩ | ⟨specifier, hmem, heq⟩
    · exact hcache entry hentry _ hmem
    · rw [heq]
      exact ModulePath.canonical_resolve (hplain _ _ hchain specifier hmem) ih

/-- If the entry is canonical, the specifiers in all scripts that a build comes to
are plain and the cache holds canonical paths, then all paths that the build
comes to are canonical.  Each of them leads to a place below the root, and no
two of them to the same place. -/
theorem reachable_canonical {p : Project} {w : Workspace} {files : Files}
    (h : w.files.makeDirectories p.outDir = (files, none))
    (hentry : ModulePath.Canonical p.entryPath)
    (hcache : ∀ entry ∈ w.cache.entries, ∀ path ∈ entry.2.imports, ModulePath.Canonical path)
    (hplain : ∀ path ∈ (p.run w).2.reachable, ∀ specifier ∈ p.specifiersAt files path,
      ModulePath.IsPlain specifier) :
    (∀ path ∈ (p.run w).2.reachable, ModulePath.Canonical path) ∧
    (∀ later : Files, ∀ path ∈ (p.run w).2.reachable, ∀ location,
      later.locate (p.file path) = .ok location →
        ∃ here, later.walkFrom p.root = .ok here ∧
          location = here ++ ModulePath.segments path) ∧
    ∀ later : Files, ∀ path ∈ (p.run w).2.reachable, ∀ other ∈ (p.run w).2.reachable, ∀ location,
      later.locate (p.file path) = .ok location → later.locate (p.file other) = .ok location →
        path = other := by
  have hcanonical : ∀ path ∈ (p.run w).2.reachable, ModulePath.Canonical path := by
    rw [reachable_run h] at hplain ⊢
    rcases Crawl.run_frontiers (Files.settled_of_makeDirectories h) w.cache with
      ⟨frontiers, _, hlast, hnext, _⟩
    generalize Crawl.run p files w.cache = last at hplain hlast hnext ⊢
    have hfound : last.found = frontiers.flatten := by
      rw [hlast.split, hnext, List.append_nil]
    rw [hfound] at hplain ⊢
    intro path hpath
    rcases (hlast.near path).mp hpath with ⟨n, _, hchain⟩
    refine canonical_of_importChain hcache hentry ?_ hchain
    intro m source hsource
    exact hplain source ((hlast.near source).mpr (hlast.exists_short hnext hsource))
  refine ⟨hcanonical, ?_, ?_⟩
  · intro later path hpath location hlocate
    exact Files.location_of_canonical (hcanonical path hpath) hlocate
  · intro later path hpath other hother location hlocate hlocate'
    rcases Files.location_of_canonical (hcanonical path hpath) hlocate with ⟨here, hhere, heq⟩
    rcases Files.location_of_canonical (hcanonical other hother) hlocate' with
      ⟨here', hhere', heq'⟩
    rw [hhere] at hhere'
    cases hhere'
    exact ModulePath.segments_injective (List.append_cancel_left (heq.symm.trans heq'))

def scriptFiles (source : String) : Files :=
  ⟨[(["index.js"], .file (Utf8.encode source) ⟨1, 0⟩)], [], ⟨2, 0⟩⟩

/-- A slash at the end and steps beyond the root do no harm. -/
theorem reachable_canonical_odd :
    ((ofEntry "index.js").run
      ⟨scriptFiles "require('./x/')+require('../y')", Table.empty, []⟩).2.reachable =
      ["index.js", "x/.js", "y.js"] ∧
    ∀ path ∈ ["index.js", "x/.js", "y.js"], ModulePath.Canonical path := by
  have hreachable : ((ofEntry "index.js").run
      ⟨scriptFiles "require('./x/')+require('../y')", Table.empty, []⟩).2.reachable =
        ["index.js", "x/.js", "y.js"] := by decide +kernel
  have hnone : ((scriptFiles "require('./x/')+require('../y')").makeDirectories
      (ofEntry "index.js").outDir).2 = none := by decide +kernel
  have hplain : ∀ path ∈ ["index.js", "x/.js", "y.js"],
      ∀ specifier ∈ (ofEntry "index.js").specifiersAt
        ((scriptFiles "require('./x/')+require('../y')").makeDirectories
          (ofEntry "index.js").outDir).1 path,
        ModulePath.IsPlain specifier := by decide +kernel
  have hmade : (⟨scriptFiles "require('./x/')+require('../y')", Table.empty, []⟩ :
      Workspace).files.makeDirectories (ofEntry "index.js").outDir =
        (((scriptFiles "require('./x/')+require('../y')").makeDirectories
          (ofEntry "index.js").outDir).1, none) := Prod.ext rfl hnone
  refine ⟨hreachable, ?_⟩
  have hcanonical := (reachable_canonical hmade (by decide +kernel)
    (fun entry hentry => by cases hentry) (by rw [hreachable]; exact hplain)).1
  rw [hreachable] at hcanonical
  exact hcanonical

/-- Two slashes in a row lead to the root of the file system. -/
theorem not_canonical_reachable_slashes :
    ModulePath.Canonical (ofEntry "index.js").entryPath ∧
    ¬∀ path ∈ ((ofEntry "index.js").run
        ⟨scriptFiles "require('.//x')", Table.empty, []⟩).2.reachable,
      ModulePath.Canonical path := by
  have hreachable :
      ((ofEntry "index.js").run ⟨scriptFiles "require('.//x')", Table.empty, []⟩).2.reachable =
        ["index.js", "/x.js"] := by decide +kernel
  rw [hreachable]
  exact ⟨by decide +kernel, by decide +kernel⟩

end Project
end ScriptBundler
