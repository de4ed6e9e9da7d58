import Mathlib.Data.List.Basic
import ScriptBundler.Project.Files

/-!
# Where paths lead

A path is followed through directories only, so it keeps leading to the same
place when files are written and when directories are made.  A file is written
at a place that has the last part of the path as its name.
-/

namespace ScriptBundler

variable {c : Char} {cs : List Char} {part path name : String} {location here there : Location}
  {files files' made : Files} {content : List UInt8}

namespace Text

variable {cut : Char → Bool}

theorem split_ne_nil (cut : Char → Bool) (cs : List Char) : split cut cs ≠ [] := by
  cases cs with
  | nil => exact List.cons_ne_nil _ _
  | cons c cs =>
    change prependToParts cut c (split cut cs) ≠ []
    unfold prependToParts
    split
    · exact List.cons_ne_nil _ _
    · split
      · exact List.cons_ne_nil _ _
      · exact List.cons_ne_nil _ _

theorem split_cons_cut (h : cut c = true) (cs : List Char) :
    split cut (c :: cs) = [] :: split cut cs := by
  change prependToParts cut c (split cut cs) = _
  unfold prependToParts
  rw [if_pos h]

theorem split_cons_keep (h : cut c = false) {cs part : List Char} {rest : List (List Char)}
    (hsplit : split cut cs = part :: rest) : split cut (c :: cs) = (c :: part) :: rest := by
  change prependToParts cut c (split cut cs) = _
  unfold prependToParts
  rw [hsplit, h]
  rfl

theorem split_append_cut (h : cut c = true) (before after : List Char) :
    split cut (before ++ c :: after) = split cut before ++ split cut after := by
  induction before with
  | nil => exact split_cons_cut h after
  | cons d before ih =>
    cases hd : cut d with
    | true =>
      rw [List.cons_append, split_cons_cut hd, split_cons_cut hd, ih, List.cons_append]
    | false =>
      rcases List.exists_cons_of_ne_nil (split_ne_nil cut before) with
        ⟨part, rest, hparts⟩
      rw [hparts, List.cons_append] at ih
      rw [List.cons_append, split_cons_keep hd ih, split_cons_keep hd hparts,
        List.cons_append]

theorem split_of_keep (h : ∀ c ∈ cs, cut c = false) : split cut cs = [cs] := by
  induction cs with
  | nil => rfl
  | cons c cs ih =>
    exact split_cons_keep (h c List.mem_cons_self)
      (ih (fun d hd => h d (List.mem_cons_of_mem _ hd)))

theorem split_of_notMem (h : c ∉ cs) : split (· == c) cs = [cs] := by
  apply split_of_keep
  intro d hd
  rw [beq_eq_false_iff_ne]
  rintro rfl
  exact h hd

theorem mem_of_mem_split {cs part : List Char} (h : part ∈ split cut cs) (hc : c ∈ part) :
    cut c = false ∧ c ∈ cs := by
  induction cs generalizing part with
  | nil =>
    rw [List.mem_singleton.mp h] at hc
    cases hc
  | cons d cs ih =>
    cases hd : cut d with
    | true =>
      rw [split_cons_cut hd] at h
      rcases List.mem_cons.mp h with rfl | hrest
      · cases hc
      · exact ⟨(ih hrest hc).1, List.mem_cons_of_mem _ (ih hrest hc).2⟩
    | false =>
      rcases List.exists_cons_of_ne_nil (split_ne_nil cut cs) with
        ⟨first, rest, hparts⟩
      rw [split_cons_keep hd hparts] at h
      rw [hparts] at ih
      rcases List.mem_cons.mp h with rfl | hrest
      · rcases List.mem_cons.mp hc with rfl | hfirst
        · exact ⟨hd, List.mem_cons_self⟩
        · have := ih List.mem_cons_self hfirst
          exact ⟨this.1, List.mem_cons_of_mem _ this.2⟩
      · have := ih (List.mem_cons_of_mem _ hrest) hc
        exact ⟨this.1, List.mem_cons_of_mem _ this.2⟩

end Text

namespace FilePath

theorem parts_ne_nil (path : String) : parts path ≠ [] := by
  unfold parts
  intro h
  exact Text.split_ne_nil _ _ (List.map_eq_nil_iff.mp h)

theorem parts_append_slash (dir path : String) :
    parts (dir ++ "/" ++ path) = parts dir ++ parts path := by
  have hsplit := @Text.split_append_cut '/' (· == '/') rfl dir.toList path.toList
  unfold parts
  rw [← List.map_append, ← hsplit]
  simp

theorem parts_empty : parts "" = [""] :=
  rfl

theorem isAbsolute_append {dir : String} (h : dir.isEmpty = false) (path : String) :
    isAbsolute (dir ++ path) = isAbsolute dir := by
  unfold isAbsolute
  rw [String.toList_append]
  cases hdir : dir.toList with
  | nil => simp [← String.toList_eq_nil_iff, hdir] at h
  | cons c cs => rfl

theorem parts_join_of_relative (h : isAbsolute path = false) (dir : String) :
    isAbsolute (join dir path) = isAbsolute dir ∧
      ∃ before, parts (join dir path) = before ++ parts path ∧
        (parts dir = before ∨ parts dir = before ++ [""]) := by
  unfold join
  rw [h, if_neg Bool.false_ne_true]
  cases hempty : dir.isEmpty with
  | true =>
    have hdir : dir = "" := by simpa using hempty
    rw [hdir, Bool.true_or, if_pos rfl, String.empty_append, h]
    exact ⟨rfl, [], rfl, Or.inr parts_empty⟩
  | false =>
    split
    · rename_i hslash
      rw [Bool.false_or, beq_iff_eq] at hslash
      rcases List.getLast?_eq_some_iff.mp hslash with ⟨cs, hcs⟩
      have hdir : dir = String.ofList cs ++ "/" ++ "" := by
        rw [← String.toList_inj, hcs]
        simp
      refine ⟨isAbsolute_append hempty path, parts (String.ofList cs), ?_, ?_⟩
      · rw [hdir, String.append_empty]
        exact parts_append_slash (String.ofList cs) path
      · rw [hdir]
        exact Or.inr (parts_append_slash (String.ofList cs) "")
    · refine ⟨?_, parts dir, parts_append_slash dir path, Or.inl rfl⟩
      rw [String.append_assoc]
      exact isAbsolute_append hempty ("/" ++ path)

theorem parts_join (dir path : String) : ∃ before, parts (join dir path) = before ++ parts path := by
  cases h : isAbsolute path with
  | true =>
    unfold join
    rw [h, if_pos rfl]
    exact ⟨[], rfl⟩
  | false =>
    rcases (parts_join_of_relative h dir).2 with ⟨before, hparts, _⟩
    exact ⟨before, hparts⟩

theorem getLast_parts_join (dir path : String) :
    (parts (join dir path)).getLast? = (parts path).getLast? := by
  rcases parts_join dir path with ⟨before, hparts⟩
  rw [hparts, List.getLast?_append_of_ne_nil _ (parts_ne_nil path)]

theorem parts_of_name (h : '/' ∉ name.toList) : parts name = [name] := by
  unfold parts
  rw [Text.split_of_notMem h, List.map_singleton, String.ofList_toList]

end FilePath

namespace Files

theorem lookup_filter_ne (entries : List (Location × FileEntry)) {location other : Location}
    (h : other ≠ location) :
    (entries.filter (fun entry => entry.1 != location)).lookup other = entries.lookup other := by
  induction entries with
  | nil => rfl
  | cons entry entries ih =>
    by_cases hentry : entry.1 = location
    · have hother : (other == entry.1) = false := by
        rw [hentry]
        exact beq_eq_false_iff_ne.mpr h
      rw [List.filter_cons_of_neg (by simp [hentry]), ih, List.lookup_cons, hother]
    · rw [List.filter_cons_of_pos (by simp [hentry]), List.lookup_cons, List.lookup_cons, ih]

theorem at_put (h : location ≠ []) (entry : FileEntry) (other : Location) :
    (files.put location entry).at? other =
      if other = location then some entry else files.at? other := by
  have hlocation : location.isEmpty = false := by simpa using h
  by_cases heq : other = location
  · rw [if_pos heq, heq, at?, hlocation]
    have hnone : (files.entries.filter (fun entry => entry.1 != location)).lookup location = none := by
      rw [List.lookup_eq_none_iff]
      intro entry hentry
      have hne : entry.1 ≠ location := by simpa using (List.mem_filter.mp hentry).2
      exact bne_iff_ne.mpr hne.symm
    change List.lookup location (_ ++ [(location, entry)]) = some entry
    rw [List.lookup_append, hnone]
    simp
  · rw [if_neg heq, at?, at?]
    change (if other.isEmpty then _ else List.lookup other (_ ++ [(location, entry)])) = _
    have hlast : List.lookup other [(location, entry)] = none := by
      rw [List.lookup_cons, beq_eq_false_iff_ne.mpr heq]
      rfl
    rw [List.lookup_append, lookup_filter_ne files.entries heq, hlast, Option.or_none]

theorem ne_nil_of_at (h : files.at? location ≠ some .directory) : location ≠ [] := by
  rintro rfl
  exact h rfl

def fileAt? (files : Files) (location : Location) : Option (List UInt8 × Timestamp) :=
  match files.at? location with
  | some (.file content modified) => some (content, modified)
  | _ => none

/-!
# Following paths

A path leads to the same place as long as directories stay directories.
-/

theorem directory_of_step {here next : Location} (h : files.step here part = .ok next) :
    files.at? here = some .directory := by
  unfold step at h
  split at h
  · cases h
  · cases h
  · assumption

theorem walk_append (files : Files) (here : Location) (before after : List String) :
    files.walk here (before ++ after) =
      match files.walk here before with
      | .ok next => files.walk next after
      | .error e => .error e := by
  induction before generalizing here with
  | nil => rfl
  | cons part before ih =>
    change (match files.step here part with | .ok next => _ | .error e => _) = _
    rw [walk]
    cases files.step here part with
    | ok next => exact ih next
    | error e => rfl

theorem walk_append_ok {before after : List String}
    (h : files.walk here (before ++ after) = .ok there) :
    ∃ next, files.walk here before = .ok next ∧ files.walk next after = .ok there := by
  rw [walk_append] at h
  split at h
  · rename_i next hnext
    exact ⟨next, hnext, h⟩
  · cases h

theorem walk_cons_ok {rest : List String} (h : files.walk here (part :: rest) = .ok there) :
    ∃ next, files.step here part = .ok next ∧ files.walk next rest = .ok there := by
  rw [walk] at h
  split at h
  · rename_i next hnext
    exact ⟨next, hnext, h⟩
  · cases h

/-- Every directory stays a directory. -/
structure Widens (files files' : Files) : Prop where
  workDir : files'.workDir = files.workDir
  directory : ∀ location, files.at? location = some .directory →
    files'.at? location = some .directory

theorem Widens.refl (files : Files) : files.Widens files :=
  ⟨rfl, fun _ h => h⟩

theorem Widens.trans {a b c : Files} (hab : a.Widens b) (hbc : b.Widens c) : a.Widens c :=
  ⟨hbc.workDir.trans hab.workDir, fun l h => hbc.directory l (hab.directory l h)⟩

theorem Widens.walk (h : files.Widens files') {parts : List String}
    (hwalk : files.walk here parts = .ok there) : files'.walk here parts = .ok there := by
  induction parts generalizing here with
  | nil => exact hwalk
  | cons part rest ih =>
    rcases walk_cons_ok hwalk with ⟨next, hstep, hrest⟩
    have hdir := directory_of_step hstep
    have hsame : files'.step here part = files.step here part := by
      rw [step, step, hdir, h.directory here hdir]
    rw [Files.walk, hsame, hstep]
    exact ih hrest

theorem locate_eq_ok_iff :
    files.locate path = .ok location ↔
      path.toList.contains '\x00' = false ∧ path.isEmpty = false ∧
      path.utf8ByteSize ≤ longestPath ∧
      files.walk (if FilePath.isAbsolute path then [] else files.workDir) (FilePath.parts path) =
        .ok location := by
  unfold locate
  cases hnull : path.toList.contains '\x00' with
  | true =>
    constructor
    · intro h
      cases h
    · rintro ⟨h, _⟩
      cases h
  | false =>
    cases hempty : path.isEmpty with
    | true =>
      constructor
      · intro h
        cases h
      · rintro ⟨_, h, _⟩
        cases h
    | false =>
      rw [if_neg Bool.false_ne_true, if_neg Bool.false_ne_true]
      by_cases hlong : longestPath < path.utf8ByteSize
      · rw [if_pos hlong]
        constructor
        · intro h
          cases h
        · rintro ⟨_, _, h, _⟩
          exact absurd hlong (Nat.not_lt.mpr h)
      · rw [if_neg hlong]
        constructor
        · intro h
          exact ⟨rfl, rfl, Nat.le_of_not_lt hlong, h⟩
        · rintro ⟨_, _, _, h⟩
          exact h

theorem Widens.locate (h : files.Widens files') (hlocate : files.locate path = .ok location) :
    files'.locate path = .ok location := by
  rw [locate_eq_ok_iff] at hlocate ⊢
  rw [h.workDir]
  exact ⟨hlocate.1, hlocate.2.1, hlocate.2.2.1, h.walk hlocate.2.2.2⟩

/-- A part that a directory can hold something under. -/
structure IsName (part : String) : Prop where
  ne_empty : part ≠ ""
  ne_here : part ≠ "."
  ne_above : part ≠ ".."

instance (part : String) : Decidable (IsName part) :=
  decidable_of_iff (part ≠ "" ∧ part ≠ "." ∧ part ≠ "..")
    ⟨fun h => ⟨h.1, h.2.1, h.2.2⟩, fun h => ⟨h.1, h.2, h.3⟩⟩

theorem step_of_isName {here next : Location} (hname : IsName name)
    (h : files.step here name = .ok next) : next = here ++ [name] := by
  have hempty : name.isEmpty = false := by simpa using hname.ne_empty
  unfold step at h
  rw [directory_of_step h, hempty] at h
  simp only [Bool.false_eq_true, hname.ne_here, hname.ne_above, or_self, if_false] at h
  split at h
  · cases h
  · cases h
    rfl

section
variable (h : files.locate path = .ok location)
include h

theorem exists_last_step (hlast : (FilePath.parts path).getLast? = some part) :
    ∃ here, files.step here part = .ok location := by
  rcases List.getLast?_eq_some_iff.mp hlast with ⟨before, hparts⟩
  have hwalk := (locate_eq_ok_iff.mp h).2.2.2
  rw [hparts] at hwalk
  rcases walk_append_ok hwalk with ⟨here, _, hend⟩
  rcases walk_cons_ok hend with ⟨there, hstep, hthere⟩
  cases hthere
  exact ⟨here, hstep⟩

theorem getLast_of_locate (hlast : (FilePath.parts path).getLast? = some name)
    (hname : IsName name) : location.getLast? = some name := by
  rcases exists_last_step h hlast with ⟨here, hstep⟩
  rw [step_of_isName hname hstep]
  exact List.getLast?_concat

theorem directory_of_locate (hlast : (FilePath.parts path).getLast? = some part)
    (hpart : part = "" ∨ part = ".") : files.at? location = some .directory := by
  rcases exists_last_step h hlast with ⟨here, hstep⟩
  have hdir := directory_of_step hstep
  have hstay : part.isEmpty = true ∨ part = "." := hpart.imp_left (by rintro rfl; rfl)
  unfold step at hstep
  rw [hdir] at hstep
  simp only [hstay, if_true] at hstep
  cases hstep
  exact hdir

end

/-!
# Writing

Writing changes one file, at the place that the path leads to.
-/

theorem locateFile_eq_ok (h : files.locateFile path = .ok location) :
    files.locate path = .ok location ∧ files.at? location ≠ some .directory ∧
      ∃ name, (FilePath.parts path).getLast? = some name ∧ IsName name := by
  unfold locateFile at h
  split at h
  · split at h
    · cases h
    · cases h
  · rename_i hnames
    split at h
    · cases h
    · rename_i there hlocate
      split at h
      · cases h
      · rename_i hat
        cases h
        refine ⟨hlocate, hat, ?_⟩
        unfold namesDirectory at hnames
        cases hlast : (FilePath.parts path).getLast? with
        | none => exact absurd (List.getLast?_eq_none_iff.mp hlast) (FilePath.parts_ne_nil path)
        | some name =>
          rw [hlast] at hnames
          simp only [Bool.or_eq_true, not_or, beq_iff_eq] at hnames
          exact ⟨name, rfl, ⟨by simpa using hnames.1.1, hnames.1.2, hnames.2⟩⟩

/-- What writing a file does: there is a file in the place of a file or of
nothing, under the last part of the path. -/
structure Written (files : Files) (path : String) (content : List UInt8) (files' : Files)
    (location : Location) : Prop where
  leads : files.locate path = .ok location
  free : files.at? location ≠ some .directory
  name : location.getLast? = (FilePath.parts path).getLast?
  workDir : files'.workDir = files.workDir
  at_eq : ∀ other, files'.at? other =
    if other = location then some (.file content files.now) else files.at? other

theorem written_of_write (h : files.write path content = .ok files') :
    ∃ location, Written files path content files' location := by
  unfold write at h
  split at h
  · rename_i location hlocate
    cases h
    rcases locateFile_eq_ok hlocate with ⟨hpath, hat, name, hlast, hname⟩
    refine ⟨location, hpath, hat, ?_, rfl, fun other => at_put (ne_nil_of_at hat) _ other⟩
    rw [getLast_of_locate hpath hlast hname, hlast]
  · cases h

/-- Directories may be made, and files may be written whose names are among the
given ones. -/
structure Changes (writes : String → Prop) (files files' : Files) : Prop extends
    Widens files files' where
  file : ∀ location, (∀ name, location.getLast? = some name → ¬writes name) →
    files'.fileAt? location = files.fileAt? location

section Changes

variable {writes writes' : String → Prop} {files'' : Files}

theorem Changes.refl (writes : String → Prop) (files : Files) : Changes writes files files :=
  ⟨.refl files, fun _ _ => rfl⟩

theorem Changes.trans (h : Changes writes files files') (h' : Changes writes files' files'') :
    Changes writes files files'' :=
  ⟨h.toWidens.trans h'.toWidens, fun l hl => (h'.file l hl).trans (h.file l hl)⟩

theorem Changes.mono (h : Changes writes files files') (hsub : ∀ name, writes name → writes' name) :
    Changes writes' files files' :=
  ⟨h.toWidens, fun l hl => h.file l (fun name hname hw => hl name hname (hsub name hw))⟩

theorem Written.narrows (h : Written files path content files' location) : files'.Widens files := by
  constructor
  · exact h.workDir.symm
  · intro other hother
    rw [h.at_eq] at hother
    split at hother
    · cases hother
    · exact hother

theorem Written.changes (h : Written files path content files' location)
    (hname : ∀ name, (FilePath.parts path).getLast? = some name → writes name) :
    Changes writes files files' := by
  constructor
  · constructor
    · exact h.workDir
    · intro other hother
      rw [h.at_eq, if_neg]
      · exact hother
      · rintro rfl
        exact h.free hother
  · intro other hother
    unfold fileAt?
    rw [h.at_eq, if_neg]
    rintro rfl
    cases hlast : other.getLast? with
    | none =>
      have hne := ne_nil_of_at h.free
      exact hne (List.getLast?_eq_none_iff.mp hlast)
    | some name => exact hother name hlast (hname name (h.name ▸ hlast))

theorem read_eq_ok_iff :
    files.read path = .ok content ↔
      ∃ location modified, files.locate path = .ok location ∧
        files.fileAt? location = some (content, modified) := by
  unfold read stat
  cases hlocate : files.locate path with
  | error e => simp
  | ok location =>
    cases hat : files.at? location with
    | none => simp [fileAt?, hat]
    | some entry =>
      cases entry with
      | directory => simp [fileAt?, hat]
      | file content modified => simp [fileAt?, hat]

theorem Written.read (h : Written files path content files' location) :
    files'.read path = .ok content := by
  have hchanges : Changes (fun _ => True) files files' := h.changes (fun _ _ => trivial)
  refine read_eq_ok_iff.mpr ⟨location, files.now, hchanges.locate h.leads, ?_⟩
  rw [fileAt?, h.at_eq, if_pos rfl]

theorem written_of_copy {source target : String} (h : files.copy source target = .ok files') :
    ∃ content location, Written files target content files' location := by
  unfold copy at h
  split at h
  · cases h
  · cases h
  · split at h
    · cases h
    · split at h
      · rename_i content _
        rcases written_of_write h with ⟨location, hwritten⟩
        exact ⟨content, location, hwritten⟩
      · cases h

theorem makeDirectory_eq_ok (h : files.makeDirectory path = .ok files') :
    ∃ location, files.locate (withoutSlashes path) = .ok location ∧
      files.at? location = none ∧ files' = files.put location .directory := by
  unfold makeDirectory at h
  split at h
  · cases h
  · rename_i location hlocate
    split at h
    · cases h
    · rename_i hat
      cases h
      exact ⟨location, hlocate, hat, rfl⟩

theorem changes_putDirectory (hat : files.at? location = none) :
    Changes writes files (files.put location .directory) := by
  have hno : files.at? location ≠ some .directory := by simp [hat]
  have hne : location ≠ [] := ne_nil_of_at hno
  constructor
  · constructor
    · rfl
    · intro other hother
      rw [at_put hne]
      split
      · rfl
      · exact hother
  · intro other _
    unfold fileAt?
    rw [at_put hne]
    by_cases heq : other = location
    · rw [if_pos heq, heq, hat]
    · rw [if_neg heq]

theorem changes_tryDirectory (writes : String → Prop) (files : Files) (path : String) :
    Changes writes files (files.tryDirectory path).1 := by
  unfold tryDirectory ensureDirectory
  cases hmake : files.makeDirectory path with
  | ok made =>
    rcases makeDirectory_eq_ok hmake with ⟨location, _, hat, rfl⟩
    exact changes_putDirectory hat
  | error e =>
    dsimp only
    split
    · rename_i hif
      split at hif
      · cases hif
        exact .refl writes files
      · cases hif
    · exact .refl writes files

theorem changes_makeDirectoriesWithin (writes : String → Prop) (depth : Nat) (path : String)
    (files : Files) : Changes writes files (makeDirectoriesWithin depth path files).1 := by
  induction depth generalizing path with
  | zero =>
    rw [makeDirectoriesWithin]
    split
    · exact .refl writes files
    · exact changes_tryDirectory writes files path
  | succ depth ih =>
    rw [makeDirectoriesWithin]
    split
    · exact .refl writes files
    · split
      · rename_i parent _ _
        have hparent := ih parent
        split
        · rename_i made hmade
          rw [hmade] at hparent
          exact hparent.trans (changes_tryDirectory writes made path)
        · exact hparent
      · exact changes_tryDirectory writes files path

theorem changes_makeDirectories (writes : String → Prop) (files : Files) (path : String) :
    Changes writes files (files.makeDirectories path).1 :=
  changes_makeDirectoriesWithin writes _ path files

end Changes

/-!
# Directories that are there already

A directory that is there is not made again.
-/

theorem toList_withoutSlashes (path : String) :
    ∃ slashes : List Char, (∀ c ∈ slashes, c = '/') ∧
      path.toList = (withoutSlashes path).toList ++ slashes := by
  refine ⟨(path.toList.reverse.takeWhile (· == '/')).reverse, ?_, ?_⟩
  · intro c hc
    have hall := List.all_eq_true.mp
      (List.all_takeWhile (p := (· == '/')) (l := path.toList.reverse)) c (List.mem_reverse.mp hc)
    simpa using hall
  · rw [withoutSlashes, Text.trimEnd, String.toList_ofList, ← List.reverse_append,
      List.takeWhile_append_dropWhile, List.reverse_reverse]

theorem directory_of_withoutSlashes (h : files.locate path = .ok location)
    (hdir : files.at? location = some .directory)
    (hwithout : files.locate (withoutSlashes path) = .ok there) :
    files.at? there = some .directory := by
  rcases toList_withoutSlashes path with ⟨slashes, hslashes, hpath⟩
  cases slashes with
  | nil =>
    rw [List.append_nil, String.toList_inj] at hpath
    rw [← hpath, h] at hwithout
    cases hwithout
    exact hdir
  | cons c slashes =>
    have hc : c = '/' := hslashes c List.mem_cons_self
    rw [hc] at hpath
    rcases locate_eq_ok_iff.mp hwithout with ⟨_, hempty, _, hwalk⟩
    have habsolute : FilePath.isAbsolute path = FilePath.isAbsolute (withoutSlashes path) := by
      unfold FilePath.isAbsolute
      rw [hpath]
      cases hfirst : (withoutSlashes path).toList with
      | nil => simp [← String.toList_eq_nil_iff, hfirst] at hempty
      | cons d rest => rfl
    have hparts : FilePath.parts path = FilePath.parts (withoutSlashes path) ++
        FilePath.parts (String.ofList slashes) := by
      have hjoined : withoutSlashes path ++ "/" ++ String.ofList slashes = path := by
        rw [← String.toList_inj, hpath]
        simp
      rw [← FilePath.parts_append_slash, hjoined]
    have hfirst : ∃ rest, FilePath.parts (String.ofList slashes) = "" :: rest := by
      cases slashes with
      | nil => exact ⟨[], by decide⟩
      | cons d slashes =>
        have hd : d = '/' := hslashes d (by simp)
        unfold FilePath.parts
        rw [String.toList_ofList, Text.split_cons_cut (by simp [hd])]
        exact ⟨_, rfl⟩
    rcases hfirst with ⟨rest, hrest⟩
    have hlong := (locate_eq_ok_iff.mp h).2.2.2
    rw [habsolute, hparts, hrest, walk_append, hwalk] at hlong
    rcases walk_cons_ok hlong with ⟨next, hstep, _⟩
    exact directory_of_step hstep

theorem isDirectory_eq_true_iff :
    files.isDirectory path = true ↔
      ∃ location, files.locate path = .ok location ∧ files.at? location = some .directory := by
  unfold isDirectory stat
  cases files.locate path with
  | error e => simp
  | ok location =>
    cases hat : files.at? location with
    | none => simp [hat]
    | some entry =>
      cases entry with
      | directory => simp [hat]
      | file content modified => simp [hat]

theorem Widens.isDirectory (h : files.Widens files') (hdir : files.isDirectory path = true) :
    files'.isDirectory path = true := by
  rw [isDirectory_eq_true_iff] at hdir ⊢
  rcases hdir with ⟨location, hlocate, hat⟩
  exact ⟨location, h.locate hlocate, h.directory location hat⟩

/-- A directory that was made is there, with or without the slashes at the end
of its path.  With them, the path may be too long to be followed. -/
theorem directory_of_tryDirectory (h : files.tryDirectory path = (made, none)) :
    made.isDirectory (withoutSlashes path) = true ∨ made.isDirectory path = true := by
  unfold tryDirectory ensureDirectory at h
  cases hmake : files.makeDirectory path with
  | ok new =>
    rw [hmake] at h
    cases h
    rcases makeDirectory_eq_ok hmake with ⟨location, hlocate, hat, rfl⟩
    have hno : files.at? location ≠ some .directory := by simp [hat]
    have hne : location ≠ [] := ne_nil_of_at hno
    have hchanges : Changes (fun _ => False) files (files.put location .directory) :=
      changes_putDirectory hat
    refine Or.inl (isDirectory_eq_true_iff.mpr ⟨location, hchanges.locate hlocate, ?_⟩)
    rw [at_put hne, if_pos rfl]
  | error e =>
    rw [hmake] at h
    dsimp only at h
    by_cases hdir : files.isDirectory path = true
    · rw [if_pos hdir] at h
      cases h
      exact Or.inr hdir
    · rw [if_neg hdir] at h
      cases h

theorem tryDirectory_settled {files made later : Files}
    (h : files.tryDirectory path = (made, none)) (hlater : made.Widens later) :
    ∃ e, later.tryDirectory path = (later, e) ∧ e ≠ some .notFound := by
  have hthere := (directory_of_tryDirectory h).imp hlater.isDirectory hlater.isDirectory
  unfold tryDirectory ensureDirectory
  cases hmake : later.makeDirectory path with
  | ok new =>
    rcases makeDirectory_eq_ok hmake with ⟨location, hlocate, hnone, _⟩
    have hat : later.at? location = some .directory := by
      rcases hthere with hwithout | hpath
      · rcases isDirectory_eq_true_iff.mp hwithout with ⟨there, hthere, hat⟩
        rw [hthere] at hlocate
        cases hlocate
        exact hat
      · rcases isDirectory_eq_true_iff.mp hpath with ⟨there, hthere, hat⟩
        exact directory_of_withoutSlashes hthere hat hlocate
    rw [hnone] at hat
    cases hat
  | error e =>
    dsimp only
    by_cases hdir : later.isDirectory path = true
    · rw [if_pos hdir]
      exact ⟨none, rfl, by simp⟩
    · rw [if_neg hdir]
      refine ⟨some e, rfl, ?_⟩
      rcases isDirectory_eq_true_iff.mp (hthere.resolve_right hdir) with ⟨there, hlocate, hat⟩
      unfold makeDirectory at hmake
      rw [hlocate] at hmake
      dsimp only at hmake
      rw [hat] at hmake
      cases hmake
      simp

theorem makeDirectoriesWithin_eq_none {depth : Nat}
    (h : makeDirectoriesWithin depth path files = (made, none)) :
    path.isEmpty = true ∨ ∃ files₀ : Files, files₀.tryDirectory path = (made, none) := by
  cases hempty : path.isEmpty with
  | true => exact Or.inl rfl
  | false =>
    apply Or.inr
    cases depth with
    | zero =>
      rw [makeDirectoriesWithin, hempty, if_neg Bool.false_ne_true] at h
      exact ⟨files, h⟩
    | succ depth =>
      rw [makeDirectoriesWithin, hempty, if_neg Bool.false_ne_true] at h
      split at h
      · split at h
        · exact ⟨_, h⟩
        · rename_i hne
          exact absurd h (hne made)
      · exact ⟨files, h⟩

theorem makeDirectories_settled {files made later : Files}
    (h : files.makeDirectories path = (made, none)) (hlater : made.Widens later) :
    (later.makeDirectories path).1 = later := by
  unfold makeDirectories
  generalize (FilePath.parts path).length = depth
  cases hempty : path.isEmpty with
  | true =>
    cases depth with
    | zero => rw [makeDirectoriesWithin, if_pos hempty]
    | succ depth => rw [makeDirectoriesWithin, if_pos hempty]
  | false =>
    have hif : ¬path.isEmpty = true := by simp [hempty]
    rcases (makeDirectoriesWithin_eq_none h).resolve_left hif with ⟨files₀, htry⟩
    rcases tryDirectory_settled htry hlater with ⟨e, hsettled, he⟩
    cases depth with
    | zero => rw [makeDirectoriesWithin, if_neg hif, hsettled]
    | succ depth =>
      rw [makeDirectoriesWithin, if_neg hif, hsettled]
      split
      · rename_i hfound _
        cases hfound
        exact absurd rfl he
      · rfl

end Files
end ScriptBundler
