import Mathlib.Data.List.Basic
import ScriptBundler.Proofs.FileTimes
import ScriptBundler.Proofs.Locations

/-!
# Copies of assets

A crawl changes nothing but the copies of assets.  The name of a copy is never
the name of a script, and a name with a point in it also has an underscore, so
that scripts and what a build makes of them are safe from copies.
-/

namespace ScriptBundler

variable {name path : String} {c : Char} {files : Files} {p : Project}

namespace FilePath

def nameExtension? (name : String) : Option String :=
  let pieces := Text.split (· == '.') name.toList
  match pieces.dropLast, pieces.getLast? with
  | [], _ => none
  | [[]], _ => none
  | _, last => last.map String.ofList

theorem extension_eq (path : String) : extension? path = (fileName? path).bind nameExtension? := by
  unfold extension?
  cases fileName? path with
  | none => rfl
  | some name => rfl

theorem nameExtension_of_noPoint (h : '.' ∉ name.toList) : nameExtension? name = none := by
  unfold nameExtension?
  rw [Text.split_of_notMem h]
  rfl

theorem nameExtension_append {stem extension : String} (hstem : '.' ∉ stem.toList)
    (hext : '.' ∉ extension.toList) {found : String}
    (h : nameExtension? (stem ++ "." ++ extension) = some found) : found = extension := by
  have hcut := @Text.split_append_cut '.' (· == '.') rfl stem.toList extension.toList
  rw [Text.split_of_notMem hstem, Text.split_of_notMem hext] at hcut
  have hlist : (stem ++ "." ++ extension).toList = stem.toList ++ '.' :: extension.toList := by
    simp
  unfold nameExtension? at h
  rw [hlist, hcut] at h
  simp only [List.singleton_append, List.dropLast_cons_cons, List.dropLast_singleton,
    List.getLast?_cons_cons, List.getLast?_singleton] at h
  split at h
  · cases h
  · cases h
  · simpa using h.symm

theorem mem_of_nameExtension {name extension : String} (h : nameExtension? name = some extension)
    (hc : c ∈ extension.toList) : c ≠ '.' ∧ c ∈ name.toList := by
  unfold nameExtension? at h
  dsimp only at h
  split at h
  · cases h
  · cases h
  · rcases Option.map_eq_some_iff.mp h with ⟨piece, hpiece, rfl⟩
    rw [String.toList_ofList] at hc
    have hmem := Text.mem_of_mem_split (List.mem_of_getLast? hpiece) hc
    exact ⟨by simpa using hmem.1, hmem.2⟩

theorem mem_parts_of_components {path part : String} (h : part ∈ components path) :
    part ∈ parts path := by
  unfold components at h
  split at h
  · cases h
  · rename_i first rest hparts
    rw [hparts]
    rcases List.mem_append.mp h with hfirst | hrest
    · split at hfirst
      · cases hfirst
      · rw [List.mem_singleton.mp hfirst]
        exact List.mem_cons_self
    · exact List.mem_cons_of_mem _ (List.mem_of_mem_filter hrest)

theorem mem_of_fileName (h : fileName? path = some name) (hc : c ∈ name.toList) :
    c ≠ '/' ∧ c ∈ path.toList := by
  unfold fileName? at h
  split at h
  · rename_i last hlast
    split at h
    · cases h
    · cases h
      rcases List.mem_map.mp (mem_parts_of_components (List.mem_of_getLast? hlast)) with
        ⟨part, hpart, rfl⟩
      rw [String.toList_ofList] at hc
      have hmem := Text.mem_of_mem_split hpart hc
      exact ⟨by simpa using hmem.1, hmem.2⟩
  · cases h

theorem getLast_of_fileName (h : fileName? path = some name) :
    (parts path).getLast? = some name ∨
      ∃ part, (parts path).getLast? = some part ∧ (part = "" ∨ part = ".") := by
  cases hlast : (parts path).getLast? with
  | none => exact absurd (List.getLast?_eq_none_iff.mp hlast) (parts_ne_nil path)
  | some part =>
    by_cases hpart : part = "" ∨ part = "."
    · exact Or.inr ⟨part, rfl, hpart⟩
    · rcases not_or.mp hpart with ⟨hempty, hpoint⟩
      have hcomponent : (components path).getLast? = some part := by
        rcases List.getLast?_eq_some_iff.mp hlast with ⟨before, hparts⟩
        unfold components
        rw [hparts]
        cases before with
        | nil => simp [hempty]
        | cons first rest => simp [hempty, hpoint]
      unfold fileName? at h
      rw [hcomponent] at h
      dsimp only at h
      split at h
      · cases h
      · cases h
        exact Or.inl rfl

end FilePath

/-!
# Names of copies

A copy is named by a module id, which has no point, and the extension of its file.
-/

namespace ModulePath

theorem toList_id (path : String) :
    (id path).toList = path.toList.map (fun c => if c = '/' ∨ c = '.' ∨ c = '-' then '_' else c) := by
  simp [id]

theorem notMem_id (hc : c = '/' ∨ c = '.' ∨ c = '-') : c ∉ (id path).toList := by
  rw [toList_id, List.mem_map]
  rintro ⟨d, _, hd⟩
  split at hd
  · rw [← hd] at hc
    revert hc
    decide
  · rename_i hno
    exact hno (hd ▸ hc)

theorem underscore_mem_id (h : '.' ∈ path.toList) : '_' ∈ (id path).toList := by
  rw [toList_id, List.mem_map]
  exact ⟨'.', h, rfl⟩

end ModulePath

namespace Asset

def IsScriptName (name : String) : Prop :=
  ∃ extension, FilePath.nameExtension? name = some extension ∧ extension.map Char.toLower = "js"

/-- The name of the copy of an asset. -/
def IsCopyName (name : String) : Prop :=
  ∃ path, isScript path = false ∧ name = fileName path

theorem isScript_eq_true_iff :
    isScript path = true ↔ ∃ name, FilePath.fileName? path = some name ∧ IsScriptName name := by
  unfold isScript
  rw [FilePath.extension_eq]
  cases FilePath.fileName? path with
  | none => simp
  | some name =>
    unfold IsScriptName
    cases hext : FilePath.nameExtension? name with
    | none => simp [hext]
    | some extension => simp [hext]

theorem fileName_cases (path : String) :
    fileName path = ModulePath.id path ∨
      ∃ name extension, FilePath.fileName? path = some name ∧
        FilePath.nameExtension? name = some extension ∧
        fileName path = ModulePath.id path ++ "." ++ extension := by
  unfold fileName
  rw [FilePath.extension_eq]
  cases hname : FilePath.fileName? path with
  | none => exact Or.inl rfl
  | some name =>
    cases hext : FilePath.nameExtension? name with
    | none => exact Or.inl (by simp [hext])
    | some extension => exact Or.inr ⟨name, extension, rfl, hext, by simp [hext]⟩

theorem slash_notMem_fileName (path : String) : '/' ∉ (fileName path).toList := by
  have hid : '/' ∉ (ModulePath.id path).toList := ModulePath.notMem_id (by decide)
  rcases fileName_cases path with heq | ⟨name, extension, hname, hext, heq⟩
  · rw [heq]
    exact hid
  · rw [heq]
    intro hmem
    simp only [String.toList_append, List.mem_append] at hmem
    rcases hmem with (hmem | hmem) | hmem
    · exact hid hmem
    · revert hmem
      decide
    · exact (FilePath.mem_of_fileName hname (FilePath.mem_of_nameExtension hext hmem).2).1 rfl

theorem IsCopyName.not_isScriptName (h : IsCopyName name) : ¬IsScriptName name := by
  rcases h with ⟨path, hscript, rfl⟩
  rintro ⟨found, hfound, hjs⟩
  have hid : '.' ∉ (ModulePath.id path).toList := ModulePath.notMem_id (by decide)
  rcases fileName_cases path with heq | ⟨name, extension, hname, hext, heq⟩
  · rw [heq, FilePath.nameExtension_of_noPoint hid] at hfound
    cases hfound
  · have hpoint : '.' ∉ extension.toList :=
      fun hmem => (FilePath.mem_of_nameExtension hext hmem).1 rfl
    rw [heq] at hfound
    rw [FilePath.nameExtension_append hid hpoint hfound] at hjs
    rw [isScript_eq_true_iff.mpr ⟨name, hname, extension, hext, hjs⟩] at hscript
    cases hscript

theorem IsCopyName.underscore_mem (h : IsCopyName name) (hpoint : '.' ∈ name.toList) :
    '_' ∈ name.toList := by
  rcases h with ⟨path, _, rfl⟩
  have hid : '.' ∉ (ModulePath.id path).toList := ModulePath.notMem_id (by decide)
  rcases fileName_cases path with heq | ⟨name, extension, hname, hext, heq⟩
  · rw [heq] at hpoint
    exact absurd hpoint hid
  · have hmem : '.' ∈ name.toList := by
      refine Classical.byContradiction fun hno => ?_
      rw [FilePath.nameExtension_of_noPoint hno] at hext
      cases hext
    have hpath := (FilePath.mem_of_fileName hname hmem).2
    rw [heq, String.toList_append, String.toList_append]
    exact List.mem_append_left _ (List.mem_append_left _ (ModulePath.underscore_mem_id hpath))

end Asset

theorem changes_loadFile (p : Project) (files : Files) (cache : FileCache) (path : String) :
    Files.Changes Asset.IsCopyName files (loadFile p files cache path).1 := by
  have hmade := Files.changes_makeDirectories Asset.IsCopyName files p.outDir
  rcases loadFile_files p files cache path with heq | ⟨hscript, heq | hcopy⟩
  · rw [heq]
    exact .refl _ files
  · rwa [heq]
  · rcases Files.written_of_copy hcopy with ⟨content, location, hwritten⟩
    refine hmade.trans (hwritten.changes ?_)
    intro name hname
    rw [FilePath.getLast_parts_join,
      FilePath.parts_of_name (Asset.slash_notMem_fileName path)] at hname
    cases hname
    exact ⟨path, hscript, rfl⟩

namespace Files

/-- Copies were made, but no directories. -/
structure Copied (files later : Files) : Prop extends Changes Asset.IsCopyName files later where
  narrows : later.Widens files

theorem Copied.refl (files : Files) : files.Copied files :=
  ⟨.refl _ files, .refl files⟩

theorem Copied.trans {a b c : Files} (hab : a.Copied b) (hbc : b.Copied c) : a.Copied c :=
  ⟨hab.toChanges.trans hbc.toChanges, hbc.narrows.trans hab.narrows⟩

/-- The output directory is there and is not made again. -/
def Settled (files : Files) (dir : String) : Prop :=
  ∀ later, files.Widens later → (later.makeDirectories dir).1 = later

theorem settled_of_makeDirectories {files made : Files} {dir : String}
    (h : files.makeDirectories dir = (made, none)) : made.Settled dir :=
  fun _ hlater => makeDirectories_settled h hlater

theorem Settled.later {later : Files} {dir : String} (h : files.Settled dir)
    (hlater : files.Widens later) : later.Settled dir :=
  fun _ hnext => h _ (hlater.trans hnext)

end Files

theorem copied_loadFile (h : files.Settled p.outDir) (cache : FileCache) (path : String) :
    files.Copied (loadFile p files cache path).1 := by
  refine ⟨changes_loadFile p files cache path, ?_⟩
  have hmade := h files (.refl files)
  rcases loadFile_files p files cache path with heq | ⟨_, heq | hcopy⟩
  · rw [heq]
    exact .refl files
  · rw [heq, hmade]
    exact .refl files
  · rw [hmade] at hcopy
    rcases Files.written_of_copy hcopy with ⟨content, location, hwritten⟩
    exact hwritten.narrows

/-!
# Scripts during a crawl

Scripts stay where they were, and load as they did, when copies are made.
-/

theorem Asset.IsScriptName.isName (h : Asset.IsScriptName name) : Files.IsName name := by
  rcases h with ⟨extension, hext, hjs⟩
  constructor
  · rintro rfl
    have hnone : FilePath.nameExtension? "" = none := by decide
    rw [hnone] at hext
    cases hext
  · rintro rfl
    have hnone : FilePath.nameExtension? "." = none := by decide
    rw [hnone] at hext
    cases hext
  · rintro rfl
    have hempty : FilePath.nameExtension? ".." = some "" := by decide
    rw [hempty] at hext
    cases hext
    rw [← String.toList_inj] at hjs
    simp at hjs

theorem isScriptName_of_locate (hscript : Asset.isScript path = true) {location : Location}
    (h : files.locate (p.file path) = .ok location) (hat : files.at? location ≠ some .directory) :
    ∃ name, location.getLast? = some name ∧ Asset.IsScriptName name := by
  rcases Asset.isScript_eq_true_iff.mp hscript with ⟨name, hfile, hname⟩
  have hlast := FilePath.getLast_parts_join p.root path
  rcases FilePath.getLast_of_fileName hfile with heq | ⟨part, heq, hpart⟩
  · rw [heq] at hlast
    exact ⟨name, Files.getLast_of_locate h hlast hname.isName, hname⟩
  · rw [heq] at hlast
    exact absurd (Files.directory_of_locate h hlast hpart) hat

theorem Files.Copied.at_script {later : Files} (h : files.Copied later)
    (hscript : Asset.isScript path = true) {location : Location}
    (hlocate : files.locate (p.file path) = .ok location) :
    later.at? location = files.at? location := by
  by_cases hdir : files.at? location = some .directory
  · rw [hdir, h.directory location hdir]
  · rcases isScriptName_of_locate hscript hlocate hdir with ⟨name, hlast, hname⟩
    have hfile : later.fileAt? location = files.fileAt? location := by
      apply h.file
      intro other hother hcopy
      rw [hlast] at hother
      cases hother
      exact hcopy.not_isScriptName hname
    have hlater : later.at? location ≠ some .directory :=
      fun hlater => hdir (h.narrows.directory location hlater)
    unfold Files.fileAt? at hfile
    revert hfile hdir hlater
    cases files.at? location with
    | none =>
      cases later.at? location with
      | none => simp
      | some entry => cases entry <;> simp
    | some entry =>
      cases later.at? location with
      | none => cases entry <;> simp
      | some entry' => cases entry <;> cases entry' <;> simp

theorem Files.Copied.stat {later : Files} (h : files.Copied later) (p : Project)
    (hscript : Asset.isScript path = true) :
    (∃ entry, files.stat (p.file path) = .ok entry ∧ later.stat (p.file path) = .ok entry) ∨
      ∃ e e', files.stat (p.file path) = .error e ∧ later.stat (p.file path) = .error e' := by
  unfold Files.stat
  cases hlocate : files.locate (p.file path) with
  | error e =>
    cases hlater : later.locate (p.file path) with
    | error e' => exact Or.inr ⟨e, e', rfl, rfl⟩
    | ok location =>
      rw [h.narrows.locate hlater] at hlocate
      cases hlocate
  | ok location =>
    rw [h.locate hlocate]
    dsimp only
    rw [h.at_script hscript hlocate]
    cases files.at? location with
    | none => exact Or.inr ⟨.notFound, .notFound, rfl, rfl⟩
    | some entry => exact Or.inl ⟨entry, rfl, rfl⟩

theorem Files.Copied.loadFile_script {later : Files} (h : files.Copied later) (p : Project)
    {cache cache' : FileCache} (hscript : Asset.isScript path = true)
    (hcache : cache'.get? path = cache.get? path) :
    (loadFile p later cache' path).2 = (loadFile p files cache path).2 := by
  unfold loadFile
  rcases h.stat p hscript with ⟨entry, hfiles, hlater⟩ | ⟨e, e', hfiles, hlater⟩
  · rw [hfiles, hlater]
    dsimp only
    rw [if_pos hscript, if_pos hscript]
    have hread : later.read (p.file path) = files.read (p.file path) := by
      unfold Files.read
      rw [hfiles, hlater]
    unfold loadScript FileCache.find?
    rw [hcache, hread]
  · rw [hfiles, hlater]

end ScriptBundler
