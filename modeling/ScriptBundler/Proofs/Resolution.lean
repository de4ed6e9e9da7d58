import Mathlib.Data.List.Infix
import Mathlib.Data.List.TakeWhile
import ScriptBundler.Module.Path
import ScriptBundler.Proofs.Locations

/-!
# Resolving specifiers

A specifier is followed segment by segment, so the segments of the path it names
are those of the directory it starts from, less those it goes up, and its own
ones.  Of the file that holds the specifier only the directory counts, and of
the quotes around the specifier nothing does.
-/

namespace ScriptBundler

namespace Text

theorem intercalate_split (c : Char) (cs : List Char) : [c].intercalate (split (· == c) cs) = cs := by
  induction cs with
  | nil => rfl
  | cons d cs ih =>
    rcases List.exists_cons_of_ne_nil (split_ne_nil (· == c) cs) with
      ⟨part, rest, hparts⟩
    rw [hparts] at ih
    by_cases hd : d = c
    · rw [split_cons_cut (by simp [hd]), hparts, List.intercalate_cons_cons, ih, hd]
      rfl
    · rw [split_cons_keep (by simp [hd]) hparts]
      cases rest with
      | nil => simpa using ih
      | cons next rest =>
        rw [List.intercalate_cons_cons] at ih ⊢
        rw [List.cons_append, List.cons_append, ih]

variable {drop : Char → Bool} {before after : List Char}

theorem trimEnd_append (h : ∀ c ∈ after, drop c = true) (cs : List Char) :
    trimEnd drop (cs ++ after) = trimEnd drop cs := by
  rw [trimEnd, List.reverse_append, List.dropWhile_append_of_pos]
  · rfl
  · exact fun c hc => h c (List.mem_reverse.mp hc)

theorem trim_surrounded (hbefore : ∀ c ∈ before, drop c = true)
    (hafter : ∀ c ∈ after, drop c = true) (cs : List Char) :
    trim drop (before ++ cs ++ after) = trim drop cs := by
  rw [trim, List.append_assoc, List.dropWhile_append_of_pos hbefore, List.dropWhile_append]
  split
  · rename_i hempty
    rw [List.dropWhile_eq_nil_iff.mpr hafter, trim, List.isEmpty_iff.mp hempty]
  · exact trimEnd_append hafter _

end Text

namespace ModulePath

variable {path segment specifier importer : String}

theorem intercalate_segments (path : String) : "/".intercalate (segments path) = path := by
  have hlists : (segments path).map String.toList = Text.split (· == '/') path.toList := by
    simp [segments, Function.comp_def]
  rw [← String.toList_inj, String.toList_intercalate, hlists]
  exact Text.intercalate_split '/' path.toList

theorem segments_intercalate {path : List String} (hne : path ≠ [])
    (hslash : ∀ segment ∈ path, '/' ∉ segment.toList) : segments ("/".intercalate path) = path := by
  induction path with
  | nil => exact absurd rfl hne
  | cons first rest ih =>
    have hfirst : FilePath.parts first = [first] :=
      FilePath.parts_of_name (hslash first List.mem_cons_self)
    cases rest with
    | nil =>
      rw [String.intercalate_singleton]
      exact hfirst
    | cons next rest =>
      have hrest := ih (List.cons_ne_nil _ _)
        (fun segment hsegment => hslash segment (List.mem_cons_of_mem _ hsegment))
      rw [String.intercalate_cons_cons]
      change FilePath.parts _ = _
      rw [FilePath.parts_append_slash, hfirst]
      exact congrArg (first :: ·) hrest

theorem slash_notMem_of_mem_segments (h : segment ∈ segments path) : '/' ∉ segment.toList := by
  rcases List.mem_map.mp h with ⟨part, hpart, rfl⟩
  rw [String.toList_ofList]
  intro hmem
  have hkeep := (Text.mem_of_mem_split hpart hmem).1
  simp at hkeep

def directory (path : String) : List String :=
  (segments path).dropLast

/-- The segments that a specifier names. -/
def namedBy (specifier : String) : List String :=
  segments (String.ofList (Text.trim isQuote specifier.toList))

def IsStep (segment : String) : Prop :=
  segment = "." ∨ segment = ".."

instance (segment : String) : Decidable (IsStep segment) :=
  inferInstanceAs (Decidable (_ ∨ _))

theorem follow_of_not_isStep (h : ¬ IsStep segment) (dir : List String) :
    follow dir segment = dir ++ [segment] := by
  rw [follow, if_neg fun h' => h (Or.inr h'), if_neg fun h' => h (Or.inl h')]

theorem mem_foldl_follow {named dir : List String} (h : segment ∈ named.foldl follow dir) :
    segment ∈ dir ∨ segment ∈ named ∧ ¬ IsStep segment := by
  induction named generalizing dir with
  | nil => exact Or.inl h
  | cons part named ih =>
    rcases ih h with hdir | ⟨hnamed, hstep⟩
    · by_cases hpart : IsStep part
      · refine Or.inl ?_
        rcases hpart with rfl | rfl
        · exact hdir
        · exact List.mem_of_mem_dropLast hdir
      · rw [follow_of_not_isStep hpart] at hdir
        rcases List.mem_append.mp hdir with hold | hnew
        · exact Or.inl hold
        · rw [List.mem_singleton.mp hnew]
          exact Or.inr ⟨List.mem_cons_self, hpart⟩
    · exact Or.inr ⟨List.mem_cons_of_mem _ hnamed, hstep⟩

theorem foldl_follow_above (k : Nat) (dir : List String) :
    (List.replicate k "..").foldl follow dir = dir.take (dir.length - min k dir.length) := by
  induction k generalizing dir with
  | zero => simp
  | succ k ih =>
    rw [List.replicate_succ, List.foldl_cons, ih]
    change dir.dropLast.take (dir.dropLast.length - min k dir.dropLast.length) = _
    rw [List.length_dropLast, List.dropLast_eq_take, List.take_take]
    congr 1
    omega

def origin (specifier importer : String) : List String :=
  if isRelative (namedBy specifier) then directory importer else ["node_modules"]

theorem resolveSegments_eq (specifier importer : String) :
    ∃ named, (named = namedBy specifier ∨
        ∃ name, namedBy specifier = [name] ∧ named = [name, "index.js"]) ∧
      resolveSegments specifier importer = named.foldl follow (origin specifier importer) := by
  unfold resolveSegments origin
  dsimp only
  rw [← namedBy]
  split
  · exact ⟨_, Or.inl rfl, rfl⟩
  · split
    · rename_i hlength
      rcases List.length_eq_one_iff.mp hlength with ⟨name, hname⟩
      rw [hname]
      exact ⟨_, Or.inr ⟨name, rfl, rfl⟩, rfl⟩
    · exact ⟨_, Or.inl rfl, rfl⟩

theorem mem_resolveSegments (h : segment ∈ resolveSegments specifier importer) :
    segment ∈ origin specifier importer ∨
      (segment ∈ namedBy specifier ∨ segment = "index.js") ∧ ¬ IsStep segment := by
  obtain ⟨named, hnamed, heq⟩ := resolveSegments_eq specifier importer
  rw [heq] at h
  refine (mem_foldl_follow h).imp_right fun ⟨hmem, hstep⟩ => ⟨?_, hstep⟩
  rcases hnamed with hnamed | ⟨name, hname, hnamed⟩
  · exact Or.inl (hnamed ▸ hmem)
  · rw [hnamed] at hmem
    rw [hname, List.mem_singleton]
    simpa using hmem

theorem slash_notMem_of_mem_resolveSegments (h : segment ∈ resolveSegments specifier importer) :
    '/' ∉ segment.toList := by
  rcases mem_resolveSegments h with horigin | ⟨hnamed | hindex, _⟩
  · unfold origin at horigin
    split at horigin
    · exact slash_notMem_of_mem_segments (List.mem_of_mem_dropLast horigin)
    · rw [List.mem_singleton.mp horigin]
      decide
  · exact slash_notMem_of_mem_segments hnamed
  · rw [hindex]
    decide

/-!
# The path of a specifier

The segments of a specifier are followed from where it starts, and an extension is
added if there is none.
-/

/-- A path with an extension behind its last segment. -/
def completed (path : List String) : List String :=
  if hasExtension path then path else path.dropLast ++ [path.getLast?.getD "" ++ ".js"]

theorem intercalate_concat_append (front : List String) (last text : String) :
    "/".intercalate (front ++ [last]) ++ text = "/".intercalate (front ++ [last ++ text]) := by
  induction front with
  | nil => simp
  | cons first front ih =>
    have hne : ∀ last : String, front ++ [last] ≠ [] := by simp
    rw [List.cons_append, List.cons_append, String.intercalate_cons_of_ne_nil (hne _),
      String.intercalate_cons_of_ne_nil (hne _), ← ih]
    simp [String.append_assoc]

theorem resolve_eq_intercalate (specifier importer : String) :
    resolve specifier importer =
      "/".intercalate (completed (resolveSegments specifier importer)) := by
  unfold resolve completed
  dsimp only
  split
  · rfl
  · rcases List.eq_nil_or_concat' (resolveSegments specifier importer) with hnil | ⟨front, last, hpath⟩
    · rw [hnil]
      rfl
    · rw [hpath, List.dropLast_concat, List.getLast?_concat]
      exact intercalate_concat_append front last ".js"

theorem completed_eq_concat (path : List String) :
    ∃ front last, completed path = front ++ [last] ∧ '.' ∈ last.toList := by
  unfold completed
  split
  · rename_i hpoint
    rcases List.eq_nil_or_concat' path with rfl | ⟨front, last, rfl⟩
    · cases hpoint
    · rw [hasExtension, List.getLast?_concat] at hpoint
      exact ⟨front, last, rfl, by simpa using hpoint⟩
  · exact ⟨_, _, rfl, by simp⟩

theorem mem_completed {path : List String} (h : segment ∈ completed path) :
    segment ∈ path ∨ segment = path.getLast?.getD "" ++ ".js" := by
  unfold completed at h
  split at h
  · exact Or.inl h
  · rcases List.mem_append.mp h with hfront | hlast
    · exact Or.inl (List.mem_of_mem_dropLast hfront)
    · exact Or.inr (List.mem_singleton.mp hlast)

theorem segments_resolve (specifier importer : String) :
    segments (resolve specifier importer) = completed (resolveSegments specifier importer) := by
  rw [resolve_eq_intercalate]
  apply segments_intercalate
  · obtain ⟨front, last, heq, _⟩ := completed_eq_concat (resolveSegments specifier importer)
    simp [heq]
  · intro segment hsegment
    rcases mem_completed hsegment with hpath | rfl
    · exact slash_notMem_of_mem_resolveSegments hpath
    · cases hlast : (resolveSegments specifier importer).getLast? with
      | none => decide
      | some last =>
        have hslash := slash_notMem_of_mem_resolveSegments (List.mem_of_getLast? hlast)
        simpa using hslash

theorem not_isStep_extended (last : String) : ¬ IsStep (last ++ ".js") := by
  have hlength : 3 ≤ (last ++ ".js").toList.length := by simp
  rintro (heq | heq)
  · rw [heq] at hlength
    exact absurd hlength (by decide)
  · rw [heq] at hlength
    exact absurd hlength (by decide)

theorem namedBy_surrounded {before after : String} (hbefore : ∀ c ∈ before.toList, isQuote c = true)
    (hafter : ∀ c ∈ after.toList, isQuote c = true) (specifier : String) :
    namedBy (before ++ specifier ++ after) = namedBy specifier := by
  rw [namedBy, String.toList_append, String.toList_append, Text.trim_surrounded hbefore hafter,
    namedBy]

theorem resolveSegments_congr {specifier' importer' : String}
    (hnamed : namedBy specifier' = namedBy specifier)
    (hdir : isRelative (namedBy specifier) = true → directory importer' = directory importer) :
    resolveSegments specifier' importer' = resolveSegments specifier importer := by
  unfold resolveSegments
  dsimp only
  rw [← namedBy, ← namedBy, hnamed]
  split
  · rename_i hrelative
    rw [← directory, ← directory, hdir hrelative]
  · rfl

theorem resolveSegments_above {k : Nat} {rest : List String} (hk : 0 < k)
    (hnamed : namedBy specifier = List.replicate k ".." ++ rest) :
    resolveSegments specifier importer = rest.foldl follow ((directory importer).take
      ((directory importer).length - min k (directory importer).length)) := by
  obtain ⟨k, rfl⟩ := Nat.exists_eq_succ_of_ne_zero (Nat.ne_of_gt hk)
  have hrelative : isRelative (namedBy specifier) = true := by
    rw [hnamed, List.replicate_succ]
    rfl
  unfold resolveSegments
  dsimp only
  rw [← namedBy, if_pos hrelative, hnamed, List.foldl_append, ← directory, foldl_follow_above]

/-- Specifiers are resolved by their segments.  From a directory without steps
the path has none, and it always ends in a segment with a point.  The importing
file counts by its directory, and only if the specifier is relative.  Leading
steps up leave out that many segments of the directory, or all of them.  Quotes
around the specifier do not count. -/
theorem resolve_by_segments (specifier importer : String) :
    ((∀ segment ∈ directory importer, ¬ IsStep segment) →
      ∀ segment ∈ segments (resolve specifier importer), ¬ IsStep segment) ∧
    (∃ front last, segments (resolve specifier importer) = front ++ [last] ∧ '.' ∈ last.toList) ∧
    (∀ other, (isRelative (namedBy specifier) = true → directory other = directory importer) →
      resolve specifier other = resolve specifier importer) ∧
    (∀ k rest, 0 < k → namedBy specifier = List.replicate k ".." ++ rest →
      segments (resolve specifier importer) = completed (rest.foldl follow
        ((directory importer).take
          ((directory importer).length - min k (directory importer).length)))) ∧
    (∀ before after : String, (∀ c ∈ before.toList, isQuote c = true) →
      (∀ c ∈ after.toList, isQuote c = true) →
      resolve (before ++ specifier ++ after) importer = resolve specifier importer) := by
  refine ⟨fun hdir segment hsegment => ?_, ?_, fun other hother => ?_, fun k rest hk hnamed => ?_,
    fun before after hbefore hafter => ?_⟩
  · rw [segments_resolve] at hsegment
    rcases mem_completed hsegment with hpath | rfl
    · rcases mem_resolveSegments hpath with horigin | ⟨_, hstep⟩
      · unfold origin at horigin
        split at horigin
        · exact hdir segment horigin
        · rw [List.mem_singleton.mp horigin]
          decide
      · exact hstep
    · exact not_isStep_extended _
  · rw [segments_resolve]
    exact completed_eq_concat _
  · rw [resolve_eq_intercalate, resolve_eq_intercalate, resolveSegments_congr rfl hother]
  · rw [segments_resolve, resolveSegments_above hk hnamed]
  · rw [resolve_eq_intercalate, resolve_eq_intercalate,
      resolveSegments_congr (namedBy_surrounded hbefore hafter specifier) fun _ => rfl]

/-- Five steps up from two directories lead to the root, and a step behind them
goes on from there. -/
theorem resolve_by_segments_root :
    (∀ segment ∈ directory "a/b/main.js", ¬ IsStep segment) ∧
    segments (resolve "'../../../../../lib/./x'" "a/b/main.js") =
      completed (["lib", ".", "x"].foldl follow ((directory "a/b/main.js").take
        ((directory "a/b/main.js").length - min 5 (directory "a/b/main.js").length))) ∧
    resolve "'../../../../../lib/./x'" "a/b/main.js" = "lib/x.js" := by
  have h := resolve_by_segments "'../../../../../lib/./x'" "a/b/main.js"
  exact ⟨by decide, h.2.2.2.1 5 ["lib", ".", "x"] (by decide) (by decide), by decide⟩

end ModulePath
end ScriptBundler
