import Mathlib.Data.List.Basic
import Mathlib.Data.List.Nodup
import ScriptBundler.Proofs.CacheText
import ScriptBundler.Proofs.Encoding
import ScriptBundler.Proofs.Locations

/-!
# The cache on disk

Loading gives the cache that the text of a file denotes, or the empty one if
there is none.  A cache that was filled entry by entry is denoted by its own
text, so saving and loading keep it.
-/

namespace ScriptBundler

namespace Table

variable {α : Type}

theorem contains_eq_true_iff {t : Table α} {key : String} :
    t.contains key = true ↔ key ∈ t.entries.map Prod.fst := by
  unfold contains get?
  rw [List.lookup_isSome_iff, List.mem_map]
  constructor
  · rintro ⟨entry, hentry, hkey⟩
    exact ⟨entry, hentry, (beq_iff_eq.mp hkey).symm⟩
  · rintro ⟨entry, hentry, rfl⟩
    exact ⟨entry, hentry, beq_self_eq_true _⟩

theorem insert_of_notMem {t : Table α} {key : String} (h : key ∉ t.entries.map Prod.fst)
    (value : α) : t.insert key value = ⟨t.entries ++ [(key, value)]⟩ := by
  rw [insert, if_neg (fun hmem => h (contains_eq_true_iff.mp hmem))]

theorem nodup_insert {t : Table α} (h : (t.entries.map Prod.fst).Nodup) (key : String) (value : α) :
    ((t.insert key value).entries.map Prod.fst).Nodup := by
  by_cases hmem : key ∈ t.entries.map Prod.fst
  · have hkeys : (replace key value t.entries).map Prod.fst = t.entries.map Prod.fst := by
      unfold replace
      rw [List.map_map]
      refine List.map_congr_left ?_
      intro entry _
      by_cases hkey : entry.1 = key
      · simp [hkey]
      · simp [hkey]
    rw [insert, if_pos (contains_eq_true_iff.mpr hmem), hkeys]
    exact h
  · rw [insert_of_notMem hmem, List.map_append]
    exact List.nodup_append_comm.mp (List.nodup_cons.mpr ⟨hmem, h⟩)

end Table

namespace FileCache

/-- The cache that results from putting in entries one after the other. -/
def ofInserts (inserts : List (String × CachedFile)) : FileCache :=
  inserts.foldl (fun cache entry => cache.insert entry.1 entry.2) Table.empty

theorem ofInserts_spec (inserts : List (String × CachedFile)) :
    ((ofInserts inserts).entries.map Prod.fst).Nodup ∧
      ∀ entry ∈ (ofInserts inserts).entries, entry ∈ inserts := by
  have hfold : ∀ (inserts : List (String × CachedFile)) (cache : FileCache),
      (cache.entries.map Prod.fst).Nodup →
        ((inserts.foldl (fun cache entry => cache.insert entry.1 entry.2) cache).entries.map
          Prod.fst).Nodup ∧
        ∀ entry ∈ (inserts.foldl (fun cache entry => cache.insert entry.1 entry.2) cache).entries,
          entry ∈ cache.entries ∨ entry ∈ inserts := by
    intro inserts
    induction inserts with
    | nil =>
      intro cache hnodup
      exact ⟨hnodup, fun entry hentry => .inl hentry⟩
    | cons first inserts ih =>
      intro cache hnodup
      rcases ih (cache.insert first.1 first.2) (Table.nodup_insert hnodup _ _) with ⟨hkeys, hmem⟩
      refine ⟨hkeys, ?_⟩
      intro entry hentry
      rcases hmem entry hentry with hold | hnew
      · rcases mem_insert hold with hold | rfl
        · exact .inl hold
        · exact .inr List.mem_cons_self
      · exact .inr (List.mem_cons_of_mem first hnew)
  rcases hfold inserts Table.empty List.nodup_nil with ⟨hkeys, hmem⟩
  refine ⟨hkeys, ?_⟩
  intro entry hentry
  rcases hmem entry hentry with hempty | hinsert
  · cases hempty
  · exact hinsert

theorem restored_eq {cache : FileCache} (hkeys : (cache.entries.map Prod.fst).Nodup)
    (htimes : ∀ entry ∈ cache.entries, entry.2.modified.isRepresentable = true) :
    cache.restored = some cache := by
  have hfold : ∀ (entries : List (String × CachedFile)) (start : FileCache),
      ((start.entries ++ entries).map Prod.fst).Nodup →
        (∀ entry ∈ entries, entry.2.modified.isRepresentable = true) →
          entries.foldlM restoreEntry start = some ⟨start.entries ++ entries⟩ := by
    intro entries
    induction entries with
    | nil =>
      intro start _ _
      rw [List.append_nil]
      rfl
    | cons first entries ih =>
      intro start hkeys htimes
      have hnew : first.1 ∉ start.entries.map Prod.fst := by
        intro hmem
        rw [List.map_append, List.map_cons] at hkeys
        exact (List.nodup_append.mp hkeys).2.2 _ hmem _ List.mem_cons_self rfl
      rw [List.foldlM_cons, restoreEntry, if_pos (htimes first List.mem_cons_self),
        Option.map_some, Table.insert_of_notMem hnew]
      have hrest := ih ⟨start.entries ++ [first]⟩ (by simpa using hkeys)
        (fun entry hentry => htimes entry (List.mem_cons_of_mem first hentry))
      simpa using hrest
  exact hfold cache.entries Table.empty hkeys htimes

/-!
# Saving and loading

What was saved is read back, as long as its times can be represented.
-/

theorem readText_of_save {cache : FileCache} {files files' : Files} {dir : String}
    (h : cache.save files dir = (files', none)) :
    files'.readText (FilePath.join dir fileName) = .ok cache.toText := by
  unfold save at h
  split at h
  · cases h
  · split at h
    · rename_i hwrite
      cases h
      rcases Files.written_of_write hwrite with ⟨location, hwritten⟩
      unfold Files.readText
      rw [hwritten.read]
      dsimp only
      rw [Utf8.decode_encode]
    · cases h

theorem load_of_readText {files : Files} {dir text : String}
    (h : files.readText (FilePath.join dir fileName) = .ok text) {cache : FileCache}
    (hdenotes : Denotes text cache) : load files dir = cache := by
  unfold load
  rw [h]
  dsimp only
  rw [ofText_eq_ok_iff.mpr hdenotes]

theorem denotes_toText {inserts : List (String × CachedFile)}
    (htimes : ∀ entry ∈ inserts,
      entry.2.modified.IsProper ∧ entry.2.modified.isRepresentable = true) :
    Denotes (ofInserts inserts).toText (ofInserts inserts) := by
  rcases ofInserts_spec inserts with ⟨hkeys, hmem⟩
  rw [← ofText_eq_ok_iff,
    ofText_toText_eq_ok_iff (fun entry hentry => (htimes entry (hmem entry hentry)).1)]
  exact restored_eq hkeys (fun entry hentry => (htimes entry (hmem entry hentry)).2)

/-- A cache that was filled entry by entry answers every question after it was
saved and loaded as it did before.  Whatever the file holds, loading it gives
the one cache that its whole text denotes, or the empty cache if there is none. -/
theorem load_keeps (inserts : List (String × CachedFile))
    (htimes : ∀ entry ∈ inserts,
      entry.2.modified.IsProper ∧ entry.2.modified.isRepresentable = true)
    {files files' : Files} {dir : String}
    (hsave : (ofInserts inserts).save files dir = (files', none)) :
    (∀ path time, (load files' dir).find? path time = (ofInserts inserts).find? path time) ∧
    ∀ (disk : Files) (place : String),
      (∃ text, disk.readText (FilePath.join place fileName) = .ok text ∧
        ∀ cache, Denotes text cache ↔ cache = load disk place) ∨
      (load disk place = Table.empty ∧
        ∀ text, disk.readText (FilePath.join place fileName) = .ok text →
          ∀ cache, ¬ Denotes text cache) := by
  constructor
  · intro path time
    rw [load_of_readText (readText_of_save hsave) (denotes_toText htimes)]
  · intro disk place
    cases hread : disk.readText (FilePath.join place fileName) with
    | error e =>
      refine .inr ⟨?_, fun text htext => nomatch htext⟩
      unfold load
      rw [hread]
    | ok text =>
      cases hofText : ofText text with
      | error fault =>
        refine .inr ⟨?_, ?_⟩
        · unfold load
          rw [hread]
          dsimp only
          rw [hofText]
        · intro text' htext cache hdenotes
          cases htext
          rw [ofText_eq_ok_iff.mpr hdenotes] at hofText
          cases hofText
      | ok loaded =>
        have hloaded := ofText_eq_ok_iff.mp hofText
        refine .inl ⟨text, rfl, ?_⟩
        intro cache
        rw [load_of_readText hread hloaded]
        constructor
        · intro hdenotes
          rw [ofText_eq_ok_iff.mpr hdenotes] at hofText
          cases hofText
          rfl
        · rintro rfl
          exact hloaded

def lastMoment : List (String × CachedFile) :=
  [("/p/é.js", ⟨"", [], ⟨0, 0⟩⟩),
   ("/p/é.js", ⟨"a\"\\\n\x01\x7f😀", ["./b", ""], ⟨Nat.pow 2 63 - 1, 999999999⟩⟩)]

theorem load_keeps_lastMoment :
    ((ofInserts lastMoment).save ⟨[], [], ⟨0, 0⟩⟩ "/c").2 = none ∧
      ∀ path time,
        (load ((ofInserts lastMoment).save ⟨[], [], ⟨0, 0⟩⟩ "/c").1 "/c").find? path time =
          (ofInserts lastMoment).find? path time := by
  have hsaved : ((ofInserts lastMoment).save ⟨[], [], ⟨0, 0⟩⟩ "/c").2 = none := by
    decide +kernel
  have htimes : ∀ entry ∈ lastMoment,
      entry.2.modified.nanoseconds < Timestamp.nanosecondsPerSecond ∧
        entry.2.modified.isRepresentable = true := by
    decide
  exact ⟨hsaved, (load_keeps lastMoment htimes (Prod.ext rfl hsaved)).1⟩

end FileCache
end ScriptBundler
