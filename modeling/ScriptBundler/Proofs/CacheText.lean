import Mathlib.Data.List.Basic
import Mathlib.Data.List.Nodup
import ScriptBundler.Bundle.CacheFile
import ScriptBundler.Proofs.JsonText

/-!
# The cache as a text

A text denotes a cache if it is written by the grammar of the cache from its
first character to its last.  Reading gives this cache.  The text of a cache is
read back entry by entry.  A time that is too late to be represented makes the
whole text unreadable.
-/

namespace ScriptBundler

open Json Json.Reader Json.Form

namespace Timestamp

def recordForm : RecordForm Timestamp where
  fields :=
    [⟨"secs_since_epoch",
       fun t => Mapped (fun n => { t with seconds := n }) (Natural (Nat.pow 2 64))⟩,
     ⟨"nanos_since_epoch",
       fun t => Mapped (fun n => { t with nanoseconds := n }) (Natural (Nat.pow 2 32))⟩]
  start := ⟨0, 0⟩
  allowsUnknown := false

/-- A time that can be represented.  Whole seconds among the nanoseconds are
carried over. -/
def Written : Form Timestamp :=
  fun input t rest => ∃ parts, recordForm.Written input parts rest ∧
    t = ofParts parts.seconds parts.nanoseconds ∧ t.isRepresentable = true

theorem describes : recordForm.Describes format where
  start := rfl
  unknown := rfl
  missing := rfl
  distinct := by
    change ["secs_since_epoch", "nanos_since_epoch"].Nodup
    decide
  fields := by
    have hnanoseconds : Nat.pow 2 32 ≤ wordBound := by decide
    refine .cons ⟨rfl, fun t => ?_, fun t => ?_⟩ (.cons ⟨rfl, fun t => ?_, fun t => ?_⟩ .nil)
    · exact (natural_exact (Nat.le_refl wordBound)).map _
    · exact (natural_readsValue (Nat.le_refl wordBound)).map _
    · exact (natural_exact hnanoseconds).map _
    · exact (natural_readsValue hnanoseconds).map _

theorem read_exact : Exact Timestamp.read Written := by
  intro input t rest
  unfold Timestamp.read
  rw [bind_eq_ok_iff]
  constructor
  · rintro ⟨parts, mid, hparts, h⟩
    split at h
    · rename_i hrepresentable
      cases h
      exact ⟨parts, (describes.read_exact _ _ _).mp hparts, rfl, hrepresentable⟩
    · cases h
  · rintro ⟨parts, hparts, rfl, hrepresentable⟩
    refine ⟨parts, rest, (describes.read_exact _ _ _).mpr hparts, ?_⟩
    rw [if_pos hrepresentable]
    rfl

theorem read_readsValue : ReadsValue Timestamp.read := by
  refine describes.readsValue.bind ?_
  intro parts input t rest h
  split at h
  · cases h
    exact Nat.le_refl _
  · cases h

def IsProper (t : Timestamp) : Prop :=
  t.nanoseconds < nanosecondsPerSecond

theorem ofParts_isProper (seconds nanoseconds : Nat) : (ofParts seconds nanoseconds).IsProper :=
  Nat.mod_lt nanoseconds (by decide)

theorem ofParts_of_isProper {t : Timestamp} (ht : t.IsProper) :
    ofParts t.seconds t.nanoseconds = t := by
  have hdiv : t.nanoseconds / nanosecondsPerSecond = 0 := Nat.div_eq_of_lt ht
  have hmod : t.nanoseconds % nanosecondsPerSecond = t.nanoseconds := Nat.mod_eq_of_lt ht
  rw [ofParts, hdiv, hmod, Nat.add_zero]

def jsonEntries (t : Timestamp) : List (RecordForm.Entry Timestamp) :=
  [⟨"secs_since_epoch", .number t.seconds,
     fun u => (if t.seconds < Nat.pow 2 64 then some t.seconds else none).map
       (fun n => { u with seconds := n })⟩,
   ⟨"nanos_since_epoch", .number t.nanoseconds,
     fun u => (if t.nanoseconds < Nat.pow 2 32 then some t.nanoseconds else none).map
       (fun n => { u with nanoseconds := n })⟩]

theorem recordForm_writes (t : Timestamp) :
    Writes recordForm.Written t.toJson.compact.toList
      (t.jsonEntries.foldlM (fun u e => e.put u) ⟨0, 0⟩) := by
  refine RecordForm.written_writes describes.distinct t.jsonEntries ?_
  refine .cons ⟨rfl, fun u => ?_⟩ (.cons ⟨rfl, fun u => ?_⟩ .nil)
  · exact (natural_writes (Nat.pow 2 64) t.seconds).map _
  · exact (natural_writes (Nat.pow 2 32) t.nanoseconds).map _

theorem foldlM_jsonEntries {t : Timestamp} (ht : t.IsProper) :
    t.jsonEntries.foldlM (fun u e => e.put u) ⟨0, 0⟩ =
      if t.seconds < Nat.pow 2 64 then some t else none := by
  have hnanoseconds : t.nanoseconds < Nat.pow 2 32 := Nat.lt_trans ht (by decide)
  by_cases hseconds : t.seconds < Nat.pow 2 64
  · simp only [jsonEntries, List.foldlM_cons, List.foldlM_nil, hseconds, hnanoseconds, if_true]
    rfl
  · simp only [jsonEntries, List.foldlM_cons, List.foldlM_nil, hseconds, if_false]
    rfl

theorem written_writes {t : Timestamp} (ht : t.IsProper) :
    Writes Written t.toJson.compact.toList (if t.isRepresentable then some t else none) := by
  intro rest hrest u rest'
  unfold Timestamp.Written
  simp only [recordForm_writes t rest hrest, foldlM_jsonEntries ht]
  constructor
  · rintro ⟨parts, ⟨hparts, hrest'⟩, rfl, hrepresentable⟩
    split at hparts
    · cases hparts
      rw [ofParts_of_isProper ht] at hrepresentable ⊢
      exact ⟨if_pos hrepresentable, hrest'⟩
    · cases hparts
  · rintro ⟨hu, hrest'⟩
    split at hu
    · rename_i hrepresentable
      cases hu
      have hseconds : t.seconds < Nat.pow 2 64 :=
        Nat.lt_trans (of_decide_eq_true hrepresentable) (by decide)
      exact ⟨t, ⟨if_pos hseconds, hrest'⟩, (ofParts_of_isProper ht).symm, hrepresentable⟩
    · cases hu

end Timestamp

namespace CachedFile

def recordForm : RecordForm CachedFile where
  fields :=
    [⟨"code", fun f => Mapped (fun s => { f with code := s }) (Quoted true)⟩,
     ⟨"imports", fun f => Mapped (fun ss => { f with imports := ss }) (ListOf (Quoted true))⟩,
     ⟨"modified", fun f => Mapped (fun t => { f with modified := t }) Timestamp.Written⟩]
  start := ⟨"", [], ⟨0, 0⟩⟩
  allowsUnknown := true

theorem describes : recordForm.Describes format where
  start := rfl
  unknown := rfl
  missing := rfl
  distinct := by
    change ["code", "imports", "modified"].Nodup
    decide
  fields := by
    refine .cons ⟨rfl, fun f => ?_, fun f => ?_⟩ (.cons ⟨rfl, fun f => ?_, fun f => ?_⟩
      (.cons ⟨rfl, fun f => ?_, fun f => ?_⟩ .nil))
    · exact string_exact.map _
    · exact string_readsValue.map _
    · exact (list_exact string_exact string_readsValue).map _
    · exact (list_readsValue string_exact string_readsValue).map _
    · exact Timestamp.read_exact.map _
    · exact Timestamp.read_readsValue.map _

def jsonEntries (f : CachedFile) : List (RecordForm.Entry CachedFile) :=
  [⟨"code", .string f.code, fun g => some { g with code := f.code }⟩,
   ⟨"imports", .strings f.imports, fun g => some { g with imports := f.imports }⟩,
   ⟨"modified", f.modified.toJson,
     fun g => (if f.modified.isRepresentable then some f.modified else none).map
       (fun t => { g with modified := t })⟩]

theorem written_writes {f : CachedFile} (hf : f.modified.IsProper) :
    Writes recordForm.Written f.toJson.compact.toList
      (if f.modified.isRepresentable then some f else none) := by
  have hfold : f.jsonEntries.foldlM (fun g e => e.put g) recordForm.start =
      if f.modified.isRepresentable then some f else none := by
    cases hmodified : f.modified.isRepresentable with
    | true => simp [jsonEntries, hmodified]
    | false => simp [jsonEntries, hmodified]
  rw [← hfold]
  refine RecordForm.written_writes describes.distinct f.jsonEntries ?_
  refine .cons ⟨rfl, fun g => ?_⟩ (.cons ⟨rfl, fun g => ?_⟩ (.cons ⟨rfl, fun g => ?_⟩ .nil))
  · exact (string_exact.writes (quoted_quote f.code)).map _
  · exact ((list_exact string_exact string_readsValue).writes (list_strings f.imports)).map _
  · exact (Timestamp.written_writes hf).map _

end CachedFile

namespace FileCache

/-- An entry under its path.  If a path is written again, the last entry
counts. -/
def Entry (cache : FileCache) (path : String) : Form FileCache :=
  fun input cache' rest => ∃ mid file, Blanks input (':' :: mid) ∧
    CachedFile.recordForm.Written mid file rest ∧ cache' = cache.insert path file

def recordForm : RecordForm FileCache where
  fields := [⟨"files", fun _ => ObjectOf Entry Table.empty⟩]
  start := Table.empty
  allowsUnknown := true

/-- A text that writes a cache from its first character to its last. -/
def Denotes (text : String) (cache : FileCache) : Prop :=
  ∃ rest, recordForm.Written text.toList cache rest ∧ Blanks rest []

theorem readEntry_exact (cache : FileCache) (path : String) :
    Exact (readEntry cache path) (Entry cache path) := by
  intro input cache' rest
  unfold readEntry
  rw [bind_eq_ok_iff]
  constructor
  · rintro ⟨_, mid, hcolon, h⟩
    rcases bind_eq_ok_iff.mp h with ⟨file, after, hfile, h⟩
    cases h
    exact ⟨mid, file, (expect_eq_ok_iff (by decide)).mp hcolon,
      (CachedFile.describes.read_exact _ _ _).mp hfile, rfl⟩
  · rintro ⟨mid, file, hcolon, hfile, rfl⟩
    refine ⟨(), mid, (expect_eq_ok_iff (by decide)).mpr hcolon, ?_⟩
    exact bind_of_ok ((CachedFile.describes.read_exact _ _ _).mpr hfile)

theorem entry_length_le {cache cache' : FileCache} {path : String} {input rest : List Char}
    (h : Entry cache path input cache' rest) : rest.length ≤ input.length := by
  rcases h with ⟨mid, file, hcolon, hfile, _⟩
  have hlength := hcolon.length_le
  have hshorter := CachedFile.describes.readsValue.shrinks
    ((CachedFile.describes.read_exact _ _ _).mpr hfile)
  rw [List.length_cons] at hlength
  omega

theorem describes : recordForm.Describes format where
  start := rfl
  unknown := rfl
  missing := rfl
  distinct := List.nodup_singleton "files"
  fields := by
    refine .cons ⟨rfl, fun _ => ?_, fun _ => ?_⟩ .nil
    · exact object_exact readEntry_exact entry_length_le Table.empty
    · exact object_readsValue readEntry_exact entry_length_le Table.empty

/-- A text is read as the cache that it denotes, if it denotes one. -/
theorem ofText_eq_ok_iff {text : String} {cache : FileCache} :
    ofText text = .ok cache ↔ Denotes text cache := by
  unfold ofText Reader.run
  constructor
  · intro h
    cases hread : format.read text.toList with
    | error fault =>
      rw [hread] at h
      cases h
    | ok p =>
      rcases p with ⟨value, rest⟩
      rw [hread] at h
      dsimp only at h
      split at h
      · rename_i hblank
        cases h
        exact ⟨rest, (describes.read_exact _ _ _).mp hread, blanks_nil_iff.mpr hblank⟩
      · cases h
  · rintro ⟨rest, hwritten, hblank⟩
    rw [(describes.read_exact _ _ _).mpr hwritten]
    dsimp only
    rw [if_pos (blanks_nil_iff.mp hblank)]

def restoreEntry (cache : FileCache) (entry : String × CachedFile) : Option FileCache :=
  (if entry.2.modified.isRepresentable then some entry.2 else none).map
    (fun file => cache.insert entry.1 file)

def restored (cache : FileCache) : Option FileCache :=
  cache.entries.foldlM restoreEntry Table.empty

theorem entry_writes {entry : String × CachedFile} (h : entry.2.modified.IsProper)
    (cache : FileCache) :
    Writes (Entry cache entry.1) (':' :: entry.2.toJson.compact.toList)
      (restoreEntry cache entry) := by
  intro rest hrest cache' rest'
  constructor
  · rintro ⟨mid, file, hcolon, hfile, rfl⟩
    obtain ⟨_, rfl⟩ := (blanks_cons_cons_iff (by decide) (by decide)).mp hcolon
    obtain ⟨hanswer, rfl⟩ := (CachedFile.written_writes h rest hrest _ _).mp hfile
    rw [restoreEntry, hanswer]
    exact ⟨rfl, rfl⟩
  · rintro ⟨hrestore, rfl⟩
    obtain ⟨file, hfile, rfl⟩ := Option.map_eq_some_iff.mp hrestore
    exact ⟨_, file, .refl _, (CachedFile.written_writes h _ hrest _ _).mpr ⟨hfile, rfl⟩, rfl⟩

def jsonEntries (cache : FileCache) : List (RecordForm.Entry FileCache) :=
  [⟨"files", .object (cache.entries.map (fun entry => (entry.1, entry.2.toJson))),
    fun _ => cache.restored⟩]

theorem ofText_toText_eq_ok_iff {cache restored : FileCache}
    (hproper : ∀ entry ∈ cache.entries, entry.2.modified.IsProper) :
    ofText cache.toText = .ok restored ↔ cache.restored = some restored := by
  have hentries : Writes (ObjectOf Entry Table.empty)
      (Json.object (cache.entries.map (fun entry => (entry.1, entry.2.toJson)))).compact.toList
      (cache.entries.foldlM restoreEntry Table.empty) := by
    refine object_writes ?_ Table.empty
    intro entry hentry
    exact entry_writes (hproper entry hentry)
  have hwrites := RecordForm.written_writes describes.distinct cache.jsonEntries
    (.cons ⟨rfl, fun _ => hentries⟩ .nil) [] (fun _ hc => nomatch hc) restored
  rw [List.append_nil] at hwrites
  rw [ofText_eq_ok_iff]
  constructor
  · rintro ⟨rest, hwritten, _⟩
    simpa [jsonEntries] using ((hwrites rest).mp hwritten).1
  · intro hrestored
    exact ⟨[], (hwrites []).mpr ⟨by simpa [jsonEntries] using hrestored, rfl⟩, .refl []⟩

theorem mem_insert {α : Type} {t : Table α} {key : String} {value : α} {entry : String × α}
    (h : entry ∈ (t.insert key value).entries) : entry ∈ t.entries ∨ entry = (key, value) := by
  unfold Table.insert at h
  split at h
  · rcases List.mem_map.mp h with ⟨old, hold, rfl⟩
    split
    · exact .inr rfl
    · exact .inl hold
  · rcases List.mem_append.mp h with hold | hnew
    · exact .inl hold
    · exact .inr (List.mem_singleton.mp hnew)

theorem mem_of_restored {cache restored : FileCache} (h : cache.restored = some restored)
    {entry : String × CachedFile} (hentry : entry ∈ restored.entries) : entry ∈ cache.entries := by
  have hfold : ∀ (entries : List (String × CachedFile)) (start last : FileCache),
      entries.foldlM restoreEntry start = some last → entry ∈ last.entries →
        entry ∈ start.entries ∨ entry ∈ entries := by
    intro entries
    induction entries with
    | nil =>
      intro start last hlast hmem
      cases hlast
      exact .inl hmem
    | cons first entries ih =>
      intro start last hlast hmem
      rw [List.foldlM_cons, restoreEntry] at hlast
      cases hfirst : first.2.modified.isRepresentable with
      | false =>
        rw [hfirst] at hlast
        cases hlast
      | true =>
        rw [hfirst] at hlast
        rcases ih (start.insert first.1 first.2) last hlast hmem with hstart | hrest
        · rcases mem_insert hstart with hold | rfl
          · exact .inl hold
          · exact .inr List.mem_cons_self
        · exact .inr (List.mem_cons_of_mem first hrest)
  rcases hfold cache.entries Table.empty restored h hentry with hempty | hmem
  · cases hempty
  · exact hmem

end FileCache
end ScriptBundler
