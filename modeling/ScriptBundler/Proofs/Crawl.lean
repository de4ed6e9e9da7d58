import Mathlib.Data.List.Basic
import Mathlib.Data.List.Nodup
import Mathlib.Data.List.Perm.Subperm
import Mathlib.Data.Nat.Digits.Defs
import Mathlib.Data.Nat.Digits.Lemmas
import ScriptBundler.Bundle.Crawl
import ScriptBundler.Proofs.Graph

/-!
# What a crawl finds

A crawl without errors turns every path that it finds into a module.  Paths are
found only as imports of modules, so every module is reached from the entry.
-/

namespace ScriptBundler

variable {files : Files} {path entry : String} {p : Project} {file : LoadedFile} {cache : FileCache}
  {c : Crawl} {known paths : List String}

theorem FilePath.byteSize_le_join (dir path : String) :
    path.utf8ByteSize ≤ (FilePath.join dir path).utf8ByteSize := by
  unfold FilePath.join
  split
  · exact Nat.le_refl _
  · split <;> simp [String.utf8ByteSize_append]

theorem Files.byteSize_le_of_stat {entry : FileEntry} (h : files.stat path = .ok entry) :
    path.utf8ByteSize ≤ Files.longestPath := by
  unfold Files.stat at h
  cases hlocate : files.locate path with
  | error e =>
    rw [hlocate] at h
    cases h
  | ok location =>
    unfold Files.locate at hlocate
    split at hlocate
    · cases hlocate
    · split at hlocate
      · cases hlocate
      · split at hlocate
        · cases hlocate
        · rename_i hle
          exact Nat.le_of_not_lt hle

def Asset.kindOf (path : String) : ModuleKind :=
  if isScript path then .script else .asset

def Asset.copies (paths : List String) : List String :=
  (paths.filter fun path => !isScript path).map fileName

def LoadedFile.IsOf (file : LoadedFile) (path : String) : Prop :=
  file.found.path = path ∧ file.found.kind = Asset.kindOf path ∧
    file.copiedAs.toList = Asset.copies [path]

/-- How a file is loaded: a script is taken from the cache or compiled, and
anything else is copied. -/
inductive Loads (p : Project) (files : Files) (cache : FileCache) (path : String) :
    LoadedFile → Prop
  | cached {entry : FileEntry} {known : CachedFile} : files.stat (p.file path) = .ok entry →
      Asset.isScript path = true →
      (modifiedAt entry).bind (FileCache.find? cache path) = some known →
      Loads p files cache path ⟨.unlinked path known.code known.imports .script, none, none⟩
  | compiled {entry : FileEntry} {content : List UInt8} {m : LoadedModule} :
      files.stat (p.file path) = .ok entry → Asset.isScript path = true →
      files.read (p.file path) = .ok content → LoadedModule.ofBytes path content = .ok m →
      Loads p files cache path ⟨.unlinked path m.code m.imports .script, modifiedAt entry, none⟩
  | copied {entry : FileEntry} : files.stat (p.file path) = .ok entry →
      Asset.isScript path = false → Loads p files cache path
        ⟨.unlinked path (Asset.code path) [] .asset, none, some (Asset.fileName path)⟩

theorem loads_of_loadFile {files' : Files} (h : loadFile p files cache path = (files', .ok file)) :
    Loads p files cache path file := by
  unfold loadFile loadScript loadAsset at h
  split at h
  · cases h
  · rename_i entry hstat
    split at h
    · rename_i hscript
      split at h
      · rename_i known hfind
        cases h
        exact .cached hstat hscript hfind
      · split at h
        · cases h
        · rename_i content hread
          split at h
          · cases h
          · rename_i m hload
            cases h
            exact .compiled hstat hscript hread hload
    · rename_i hscript
      split at h
      · cases h
      · split at h
        · cases h
        · cases h
          exact .copied hstat (Bool.eq_false_iff.mpr hscript)

theorem loadFile_files (p : Project) (files : Files) (cache : FileCache) (path : String) :
    (loadFile p files cache path).1 = files ∨ Asset.isScript path = false ∧
      ((loadFile p files cache path).1 = (files.makeDirectories p.outDir).1 ∨
        (files.makeDirectories p.outDir).1.copy (p.file path)
          (FilePath.join p.outDir (Asset.fileName path)) = .ok (loadFile p files cache path).1) := by
  unfold loadFile loadAsset
  split
  · exact .inl rfl
  · split
    · exact .inl rfl
    · rename_i hscript
      refine .inr ⟨Bool.eq_false_iff.mpr hscript, ?_⟩
      rcases files.makeDirectories p.outDir with ⟨made, _ | e⟩
      · dsimp only
        split
        · exact .inl rfl
        · rename_i hcopy
          exact .inr hcopy
      · exact .inl rfl

theorem loadFile_isOf {files files' : Files}
    (h : loadFile p files cache path = (files', .ok file)) :
    file.IsOf path ∧ path.utf8ByteSize ≤ Files.longestPath := by
  cases loads_of_loadFile h with
  | cached hstat hscript | compiled hstat hscript | copied hstat hscript =>
    refine ⟨?_, Nat.le_trans (FilePath.byteSize_le_join p.root path)
      (Files.byteSize_le_of_stat hstat)⟩
    simp [LoadedFile.IsOf, Module.unlinked, Asset.kindOf, Asset.copies, hscript]

theorem nodup_eraseDups (paths : List String) : paths.eraseDups.Nodup := by
  cases paths with
  | nil => exact List.nodup_nil
  | cons path rest =>
    rw [List.eraseDups_cons, List.nodup_cons]
    constructor
    · simp [List.mem_eraseDups]
    · exact nodup_eraseDups _
termination_by paths.length
decreasing_by exact Nat.lt_succ_of_le (List.length_filter_le _ _)

def unknown (known paths : List String) : List String :=
  (paths.removeAll known).eraseDups

theorem mem_unknown : path ∈ unknown known paths ↔ path ∉ known ∧ path ∈ paths := by
  simp [unknown, List.removeAll, and_comm]

theorem unknown_cons_of_mem (h : path ∈ known) :
    unknown known (path :: paths) = unknown known paths := by
  simp [unknown, List.removeAll, h]

theorem unknown_cons_of_notMem (h : path ∉ known) :
    unknown known (path :: paths) = path :: unknown (known ++ [path]) paths := by
  have hremove : (path :: paths).removeAll known = path :: paths.removeAll known := by
    simp [List.removeAll, h]
  rw [unknown, hremove, List.eraseDups_cons, unknown, List.removeAll, List.removeAll,
    List.filter_filter]
  congr 2
  apply List.filter_congr
  intro other _
  by_cases hother : other = path
  · simp [hother]
  · simp [hother, beq_eq_false_iff_ne.mpr hother]

@[simp] theorem unknown_nil (known : List String) : unknown known [] = [] :=
  rfl

namespace Crawl

theorem discover_of_mem (h : path ∈ c.found) : c.discover path = c :=
  if_pos h

theorem discover_of_notMem (h : path ∉ c.found) :
    c.discover path = { c with found := c.found ++ [path], next := c.next ++ [path] } :=
  if_neg h

theorem foldl_discover_eq (imports : List String) (c : Crawl) :
    imports.foldl discover c =
      { c with
        found := c.found ++ unknown c.found imports
        next := c.next ++ unknown c.found imports } := by
  induction imports generalizing c with
  | nil => simp
  | cons path imports ih =>
    rw [List.foldl_cons, ih]
    by_cases hpath : path ∈ c.found
    · rw [discover_of_mem hpath, unknown_cons_of_mem hpath]
    · rw [discover_of_notMem hpath, unknown_cons_of_notMem hpath]
      simp

def noteCopy (c : Crawl) (file : LoadedFile) : Crawl :=
  { c with assets := c.assets ++ file.copiedAs.toList }

theorem accept_eq (c : Crawl) (file : LoadedFile) :
    c.accept file = (({ c with
      found := c.found ++ unknown c.found file.found.imports
      next := c.next ++ unknown c.found file.found.imports
      cache := (c.remember file).cache } : Crawl).noteCopy file).addModule file := by
  unfold accept remember
  rw [foldl_discover_eq]
  cases file.compiled <;> rfl

theorem addModule_eq (c : Crawl) (file : LoadedFile) :
    c.addModule file = { c with
      graph := (c.addModule file).graph
      errors := (c.addModule file).errors } := by
  unfold addModule
  split <;> rfl

/-- What a visit does when it reports no error: the file becomes the last module
of the graph and its imports are lined up. -/
structure Added (c : Crawl) (path : String) (c' : Crawl) (m : Module) (fresh : List String) :
    Prop where
  path_eq : m.path = path
  kind_eq : m.kind = Asset.kindOf path
  assets : c'.assets = c.assets ++ Asset.copies [path]
  short : path.utf8ByteSize ≤ Files.longestPath
  graph : ∃ position, c.graph.add m = .ok (position, c'.graph)
  found : c'.found = c.found ++ fresh
  next : c'.next = c.next ++ fresh
  nodup : fresh.Nodup
  fresh_new : ∀ q ∈ fresh, q ∉ c.found ∧ q ∈ m.imports
  imports : ∀ q ∈ m.imports, q ∈ c'.found
  errors : c.errors = []

theorem visit_added (h : (visit p c path).errors = []) :
    ∃ m fresh, Added c path (visit p c path) m fresh := by
  unfold visit at h ⊢
  rcases hload : loadFile p c.files c.cache path with ⟨files, result⟩
  rw [hload] at h
  cases result with
  | error e => simp [fail] at h
  | ok file =>
    rcases loadFile_isOf hload with ⟨⟨hpath, hkind, hcopied⟩, hshort⟩
    dsimp only at h ⊢
    rw [accept_eq] at h ⊢
    unfold addModule at h ⊢
    dsimp only [noteCopy] at h ⊢
    cases hadd : c.graph.add file.found with
    | error e =>
      rw [hadd] at h
      simp [fail] at h
    | ok added =>
      rw [hadd] at h
      refine ⟨file.found, unknown c.found file.found.imports, ⟨hpath, hkind,
        congrArg (c.assets ++ ·) hcopied, hshort, ⟨added.1, hadd⟩, rfl, rfl, nodup_eraseDups _,
        fun q hq => mem_unknown.mp hq, fun q hq => List.mem_append.mpr ?_, h⟩⟩
      exact or_iff_not_imp_left.mpr fun hno => mem_unknown.mpr ⟨hno, hq⟩

end Crawl

inductive Graph.Reaches (g : Graph) (entry : String) : String → Prop where
  | entry : Reaches g entry entry
  | step {m : Module} {path : String} :
      Reaches g entry m.path → m ∈ g.modules → path ∈ m.imports → Reaches g entry path

theorem Graph.Reaches.mono {g g' : Graph} (hsub : ∀ m ∈ g.modules, m ∈ g'.modules)
    (h : g.Reaches entry path) : g'.Reaches entry path := by
  induction h with
  | entry => exact .entry
  | step _ hm hpath ih => exact .step ih (hsub _ hm) hpath

namespace Crawl

/-!
# A crawl without errors

Whatever was found is a module, is in line, or is still to be visited in this round.
-/

/-- What holds between two visits as long as there is no error.  The paths in
`pending` are those of this round that have not been visited. -/
structure Sound (entry : String) (pending : List String) (c : Crawl) : Prop where
  distinct : c.graph.Distinct
  nodup : c.found.Nodup
  /-- Every path found is the path of a module or has its turn ahead. -/
  split : c.found.Perm (c.graph.paths ++ pending ++ c.next)
  entry_mem : entry ∈ c.found
  reaches : ∀ path ∈ c.found, c.graph.Reaches entry path
  imports : ∀ m ∈ c.graph.modules, ∀ path ∈ m.imports, path ∈ c.found
  short : ∀ path ∈ c.graph.paths, path.utf8ByteSize ≤ Files.longestPath
  kinds : ∀ m ∈ c.graph.modules, m.kind = Asset.kindOf m.path
  assets : c.assets = Asset.copies c.graph.paths

theorem sound_start (files : Files) (cache : FileCache) (entry : String) :
    Sound entry [] (start files cache entry) where
  distinct := Graph.distinct_empty
  nodup := List.nodup_singleton entry
  split := .refl _
  entry_mem := List.mem_singleton.mpr rfl
  reaches := by
    intro path hpath
    rw [List.mem_singleton.mp hpath]
    exact .entry
  imports := by
    intro m hm
    cases hm
  short := by
    intro path hpath
    cases hpath
  kinds := by
    intro m hm
    cases hm
  assets := rfl

theorem Sound.beginRound (h : Sound entry [] c) :
    Sound entry c.next { c with next := [] } where
  distinct := h.distinct
  nodup := h.nodup
  split := by simpa using h.split
  entry_mem := h.entry_mem
  reaches := h.reaches
  imports := h.imports
  short := h.short
  kinds := h.kinds
  assets := h.assets

theorem Sound.notMem_paths {pending : List String} (h : Sound entry (path :: pending) c) :
    path ∉ c.graph.paths := by
  have hnodup := h.split.nodup_iff.mp h.nodup
  rw [List.append_assoc] at hnodup
  intro hmem
  exact (List.disjoint_of_nodup_append hnodup) hmem (by simp)

theorem Sound.step {pending : List String} {c c' : Crawl} {m : Module} {fresh : List String}
    (h : Sound entry (path :: pending) c) (hadded : Added c path c' m fresh) :
    Sound entry pending c' ∧ c'.graph.size = c.graph.size + 1 := by
  rcases hadded.graph with ⟨position, hadd⟩
  have hnew : m.path ∉ c.graph.paths := by
    rw [hadded.path_eq]
    exact h.notMem_paths
  rcases Graph.add_of_notMem hnew hadd with ⟨hmodules, _⟩
  have hpaths : c'.graph.paths = c.graph.paths ++ [path] := by
    rw [Graph.paths, hmodules, List.map_append, ← hadded.path_eq]
    rfl
  have hsub : ∀ other ∈ c.graph.modules, other ∈ c'.graph.modules := by
    intro other hother
    rw [hmodules]
    exact List.mem_append_left _ hother
  have hm : m ∈ c'.graph.modules := by
    rw [hmodules]
    exact List.mem_append_right _ List.mem_cons_self
  have hpath : path ∈ c.found := h.split.mem_iff.mpr (by simp)
  refine ⟨?_, by simp [Graph.size, hmodules]⟩
  constructor
  · exact h.distinct.add hnew hadd
  · rw [hadded.found]
    refine List.nodup_append.mpr ⟨h.nodup, hadded.nodup, ?_⟩
    rintro q hq other hother rfl
    exact (hadded.fresh_new q hother).1 hq
  · rw [hadded.found, hadded.next, hpaths]
    simpa using h.split.append_right fresh
  · rw [hadded.found]
    exact List.mem_append_left _ h.entry_mem
  · intro q hq
    rw [hadded.found] at hq
    rcases List.mem_append.mp hq with hold | hfresh
    · exact (h.reaches q hold).mono hsub
    · have hfrom : c'.graph.Reaches entry m.path := by
        rw [hadded.path_eq]
        exact (h.reaches path hpath).mono hsub
      exact .step hfrom hm (hadded.fresh_new q hfresh).2
  · intro other hother q hq
    rw [hmodules] at hother
    rcases List.mem_append.mp hother with hold | hlast
    · rw [hadded.found]
      exact List.mem_append_left _ (h.imports other hold q hq)
    · rw [List.mem_singleton.mp hlast] at hq
      exact hadded.imports q hq
  · intro q hq
    rw [hpaths] at hq
    rcases List.mem_append.mp hq with hold | hlast
    · exact h.short q hold
    · rw [List.mem_singleton.mp hlast]
      exact hadded.short
  · intro other hother
    rw [hmodules] at hother
    rcases List.mem_append.mp hother with hold | hlast
    · exact h.kinds other hold
    · rw [List.mem_singleton.mp hlast, hadded.path_eq]
      exact hadded.kind_eq
  · rw [hadded.assets, h.assets, hpaths, Asset.copies, Asset.copies, Asset.copies,
      List.filter_append, List.map_append]

theorem errors_of_foldl_visit (paths : List String) (c : Crawl)
    (h : (paths.foldl (visit p) c).errors = []) : c.errors = [] := by
  induction paths generalizing c with
  | nil => exact h
  | cons path rest ih =>
    rcases visit_added (ih (visit p c path) h) with ⟨m, fresh, hadded⟩
    exact hadded.errors

theorem Sound.round (pending : List String) (c : Crawl) (hsound : Sound entry pending c)
    (h : (pending.foldl (visit p) c).errors = []) :
    Sound entry [] (pending.foldl (visit p) c) ∧
      (pending.foldl (visit p) c).graph.size = c.graph.size + pending.length := by
  induction pending generalizing c with
  | nil => exact ⟨hsound, rfl⟩
  | cons path rest ih =>
    rw [List.foldl_cons] at h ⊢
    rcases visit_added (errors_of_foldl_visit rest _ h) with ⟨m, fresh, hadded⟩
    rcases hsound.step hadded with ⟨hnext, hsize⟩
    rcases ih (visit p c path) hnext h with ⟨hlast, hlength⟩
    refine ⟨hlast, ?_⟩
    rw [hlength, hsize, List.length_cons]
    omega

theorem errors_of_rounds (n : Nat) (c : Crawl) (h : (rounds p n c).errors = []) :
    c.errors = [] := by
  induction n generalizing c with
  | zero => exact h
  | succ n ih =>
    unfold rounds at h
    split at h
    · exact h
    · exact errors_of_foldl_visit c.next { c with next := [] } (ih _ h)

/-- Every round but the last takes up at least one path, so a crawl that has not
ended has as many modules as rounds. -/
theorem Sound.rounds (n : Nat) (c : Crawl) (hsound : Sound entry [] c)
    (h : (Crawl.rounds p n c).errors = []) :
    Sound entry [] (Crawl.rounds p n c) ∧
      ((Crawl.rounds p n c).next = [] ∨
        c.graph.size + n ≤ (Crawl.rounds p n c).graph.size) := by
  induction n generalizing c with
  | zero => exact ⟨hsound, Or.inr (Nat.le_refl _)⟩
  | succ n ih =>
    unfold Crawl.rounds at h ⊢
    split
    · rename_i hnext
      exact ⟨hsound, Or.inl hnext⟩
    · rename_i hnext
      split at h
      · contradiction
      · have hround := hsound.beginRound.round (p := p) c.next _ (errors_of_rounds n _ h)
        rcases ih _ hround.1 h with ⟨hlast, hend⟩
        refine ⟨hlast, hend.imp_right ?_⟩
        intro hsize
        have hlength : 0 < c.next.length := List.length_pos_iff.mpr hnext
        have hgraph := hround.2
        dsimp only at hgraph
        omega

/-! # Enough rounds

There are fewer short paths than rounds. -/

def pathBytes (path : String) : List Nat :=
  path.toByteArray.data.toList.map UInt8.toNat

/-- A number that tells texts apart: their bytes as digits, with a one in front. -/
def pathCode (path : String) : Nat :=
  Nat.ofDigits 256 (pathBytes path ++ [1])

theorem lt_of_mem_pathBytes {digit : Nat} (h : digit ∈ pathBytes path ++ [1]) : digit < 256 := by
  rcases List.mem_append.mp h with hbyte | hone
  · rcases List.mem_map.mp hbyte with ⟨byte, _, rfl⟩
    exact byte.toNat_lt
  · rw [List.mem_singleton.mp hone]
    decide

theorem pathCode_injective : Function.Injective pathCode := by
  have hdigits : ∀ path, Nat.digits 256 (pathCode path) = pathBytes path ++ [1] := by
    intro path
    exact Nat.digits_ofDigits 256 (by decide) _ (fun _ => lt_of_mem_pathBytes) (by simp)
  intro a b h
  have hbytes : pathBytes a = pathBytes b := by
    have hone : pathBytes a ++ [1] = pathBytes b ++ [1] := by
      rw [← hdigits, h, hdigits]
    exact List.append_cancel_right hone
  have hdata := (List.map_injective_iff.mpr (fun _ _ => UInt8.toNat_inj.mp)) hbytes
  exact String.toByteArray_inj.mp (ByteArray.ext (Array.toList_inj.mp hdata))

theorem pathCode_lt (path : String) : pathCode path < 256 ^ (path.utf8ByteSize + 1) := by
  have hdigit : ∀ digit ∈ pathBytes path ++ [1], digit < 256 :=
    fun _ => lt_of_mem_pathBytes
  have h := Nat.ofDigits_lt_base_pow_length (by decide) hdigit
  simpa [pathCode, pathBytes] using h

theorem pathCode_pos (path : String) : 0 < pathCode path := by
  rw [pathCode, Nat.ofDigits_append]
  simp

/-- Texts of at most `limit` bytes that differ from each other are fewer than
the numbers that their bytes can write. -/
theorem length_lt_of_byteSize_le {limit : Nat} {paths : List String} (hnodup : paths.Nodup)
    (hshort : ∀ path ∈ paths, path.utf8ByteSize ≤ limit) : paths.length < 256 ^ (limit + 1) := by
  have hsubset : paths.map pathCode ⊆ List.range' 1 (256 ^ (limit + 1) - 1) := by
    intro code hcode
    rcases List.mem_map.mp hcode with ⟨path, hpath, rfl⟩
    have hpow : 256 ^ (path.utf8ByteSize + 1) ≤ 256 ^ (limit + 1) :=
      Nat.pow_le_pow_right (by decide) (Nat.succ_le_succ (hshort path hpath))
    have hlt := pathCode_lt path
    have hpos := pathCode_pos path
    rw [List.mem_range'_1]
    omega
  have hlength :=
    (List.subperm_of_subset (hnodup.map pathCode_injective) hsubset).length_le
  have hpos : 0 < 256 ^ (limit + 1) := Nat.pow_pos (by decide)
  rw [List.length_map, List.length_range'] at hlength
  omega

theorem Sound.next_of_rounds {n : Nat} (hn : 256 ^ (Files.longestPath + 1) ≤ n)
    (hsound : Sound entry [] c) (h : (Crawl.rounds p n c).errors = []) :
    (Crawl.rounds p n c).next = [] := by
  rcases hsound.rounds n c h with ⟨hlast, hend⟩
  refine hend.resolve_right ?_
  intro hsize
  have hlt := length_lt_of_byteSize_le hlast.distinct.paths hlast.short
  rw [Graph.paths, List.length_map] at hlt
  have hle : n ≤ (Crawl.rounds p n c).graph.modules.length :=
    Nat.le_trans (Nat.le_add_left n c.graph.size) hsize
  exact Nat.lt_irrefl n (Nat.lt_of_lt_of_le (Nat.lt_of_le_of_lt hle hlt) hn)

theorem run_sound (h : (run p files cache).errors = []) :
    Sound p.entryPath [] (run p files cache) ∧ (run p files cache).next = [] := by
  have hstart := sound_start files cache p.entryPath
  have hrounds : 256 ^ (Files.longestPath + 1) ≤ mostRounds := by
    rw [mostRounds, Nat.pow_eq]
  -- The bound is hidden, for no step may try to compute it.
  rw [run] at h ⊢
  generalize mostRounds = n at h hrounds ⊢
  exact ⟨(hstart.rounds n _ h).1, hstart.next_of_rounds hrounds h⟩

end Crawl
end ScriptBundler
