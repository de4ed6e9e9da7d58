import Mathlib.Data.List.Basic
import Mathlib.Data.List.Nodup
import ScriptBundler.Json.Value
import ScriptBundler.Proofs.RecordGrammar

/-!
# Reading what was written

A value that is written without white space is written in the form of its type,
whatever follows it, and in no other way.  A form may still refuse the value: a
number can be too large for it.  So what is written is given as an option.
-/

namespace ScriptBundler
namespace Json

open Reader

namespace Form

variable {α β : Type} {form : Form α} {text input rest : List Char} {c d : Char} {n : Nat}

/-- All that a text writes in a form: a value, or nothing if it is refused. A
number must not go on behind the text. -/
def Writes (form : Form α) (text : List Char) (answer : Option α) : Prop :=
  ∀ rest, EndsNumber rest → ∀ a rest', form (text ++ rest) a rest' ↔ answer = some a ∧ rest' = rest

theorem Exact.unique {reader : Reader α} (h : Exact reader form) {a b : α} {rest' : List Char}
    (ha : form input a rest) (hb : form input b rest') : a = b ∧ rest = rest' := by
  have hsame := ((h _ _ _).mpr ha).symm.trans ((h _ _ _).mpr hb)
  cases hsame
  exact ⟨rfl, rfl⟩

theorem Exact.writes {reader : Reader α} (h : Exact reader form) {a : α}
    (ha : ∀ rest, form (text ++ rest) a rest) : Writes form text (some a) := by
  intro rest _ b rest'
  constructor
  · intro hb
    obtain ⟨rfl, rfl⟩ := h.unique (ha rest) hb
    exact ⟨rfl, rfl⟩
  · rintro ⟨hb, rfl⟩
    rw [← Option.some.inj hb]
    exact ha rest'

theorem Writes.map {answer : Option α} (h : Writes form text answer) (g : α → β) :
    Writes (Mapped g form) text (answer.map g) := by
  intro rest hrest b rest'
  unfold Mapped
  simp only [h rest hrest, Option.map_eq_some_iff]
  constructor
  · rintro ⟨a, ⟨ha, hrest⟩, rfl⟩
    exact ⟨⟨a, ha, rfl⟩, hrest⟩
  · rintro ⟨⟨a, ha, rfl⟩, hrest⟩
    exact ⟨a, ⟨ha, hrest⟩, rfl⟩

theorem blanks_cons_cons_iff (hc : isBlank c = false) (hd : isBlank d = false) :
    Blanks (c :: input) (d :: rest) ↔ c = d ∧ input = rest := by
  rw [blanks_cons_iff hd, List.dropWhile_cons, hc]
  exact List.cons_eq_cons

theorem hexDigit_digitChar : ∀ d < 16, hexDigit? (Nat.digitChar d) = some d := by
  decide

theorem hexQuad_hexPair (h : n < 0x20) :
    hexQuad ['0', '0', Nat.digitChar (n / 16), Nat.digitChar (n % 16)] = .ok n := by
  have hhigh := hexDigit_digitChar (n / 16) (by omega)
  have hlow := hexDigit_digitChar (n % 16) (by omega)
  have hzero : hexDigit? '0' = some 0 := by decide
  simp only [hexQuad, hzero, hhigh, hlow]
  congr 1
  omega

theorem letter_escape (c : Char) (rest : List Char) : Letter true (escape c ++ rest) c rest := by
  unfold escape
  split_ifs with h1 h2 h3 h4 h5 h6 h7 hcontrol
  · subst h1
    exact .short (by decide)
  · subst h2
    exact .short (by decide)
  · subst h3
    exact .short (by decide)
  · subst h4
    exact .short (by decide)
  · subst h5
    exact .short (by decide)
  · subst h6
    exact .short (by decide)
  · subst h7
    exact .short (by decide)
  · have hcode : Letter true _ _ rest :=
      .code (hexQuad_hexPair hcontrol) (fun _ => .inl (by omega))
    rw [Char.ofNat_toNat] at hcode
    exact hcode
  · exact .plain h1 h2 (Nat.le_of_not_lt hcontrol)

theorem body_escapes (cs rest : List Char) :
    Body true (cs.flatMap escape ++ '"' :: rest) cs rest := by
  induction cs with
  | nil => exact .close
  | cons c cs ih =>
    rw [List.flatMap_cons, List.append_assoc]
    exact .next (letter_escape c _) ih

theorem quote_toList (s : String) :
    (quote s).toList = '"' :: (s.toList.flatMap escape ++ ['"']) := by
  simp [quote]

theorem quoted_quote (s : String) (rest : List Char) :
    Quoted true ((quote s).toList ++ rest) s rest := by
  rw [quote_toList, List.cons_append, List.append_assoc, List.singleton_append]
  exact ⟨_, .refl _, body_escapes s.toList rest⟩

theorem toDigits_append_inj {m : Nat} {rest' : List Char} (hrest : EndsNumber rest)
    (hrest' : EndsNumber rest') (h : Nat.toDigits 10 n ++ rest = Nat.toDigits 10 m ++ rest') :
    n = m ∧ rest = rest' := by
  have hm := whole_toDigits m hrest'
  rw [← h] at hm
  obtain ⟨hdigits, hrests⟩ := wholePart_exact.unique (whole_toDigits n hrest) hm
  refine ⟨?_, hrests⟩
  rw [← Nat.ofDigitChars_ten_toDigits (n := n), hdigits, Nat.ofDigitChars_ten_toDigits]

theorem natural_writes (bound n : Nat) :
    Writes (Natural bound) (Text.decimal n).toList (if n < bound then some n else none) := by
  intro rest hrest m rest'
  constructor
  · rintro ⟨hm, hblanks, hends⟩
    rcases exists_digit (.refl ((Text.decimal n).toList ++ rest)) with ⟨c, cs, _, hn, hdrop⟩
    rcases exists_digit hblanks with ⟨c', cs', _, hm', hdrop'⟩
    obtain ⟨rfl, rfl⟩ := toDigits_append_inj hrest hends
      (hn.trans (hdrop.symm.trans (hdrop'.trans hm'.symm)))
    exact ⟨if_pos hm, rfl⟩
  · rintro ⟨hn, rfl⟩
    split at hn
    · rename_i hlt
      obtain rfl := Option.some.inj hn
      exact ⟨hlt, .refl _, hrest⟩
    · cases hn

def further (texts : List String) : List Char :=
  texts.flatMap (fun text => ',' :: text.toList)

theorem further_cons (text : String) (texts : List String) :
    further (text :: texts) = ',' :: (text.toList ++ further texts) := by
  simp [further]

theorem intercalate_toList (text : String) (texts : List String) :
    (",".intercalate (text :: texts)).toList = text.toList ++ further texts := by
  induction texts generalizing text with
  | nil => simp [further]
  | cons next texts ih =>
    rw [String.intercalate_cons_cons, further_cons, String.toList_append, ih]
    simp

theorem items_strings (items : List String) (rest : List Char) :
    Items (Quoted true) false (further (items.map quote) ++ ']' :: rest) items rest := by
  induction items with
  | nil => exact .close (.refl _)
  | cons item items ih =>
    rw [List.map_cons, further_cons, List.cons_append, List.append_assoc]
    exact .next (.comma (.refl _)) (quoted_quote item _) ih

theorem list_strings (items : List String) (rest : List Char) :
    ListOf (Quoted true) ((strings items).compact.toList ++ rest) items rest := by
  have hitems : ∀ xs : List String, compactItems (xs.map .string) = xs.map quote := by
    intro xs
    induction xs with
    | nil => rfl
    | cons x xs ih => rw [List.map_cons, compactItems, ih, compact, List.map_cons]
  have htext : (strings items).compact.toList ++ rest =
      '[' :: ((",".intercalate (items.map quote)).toList ++ ']' :: rest) := by
    rw [strings, compact, hitems]
    simp
  rw [htext]
  refine ⟨_, .refl _, ?_⟩
  cases items with
  | nil => exact .close (.refl _)
  | cons item items =>
    rw [List.map_cons, intercalate_toList, List.append_assoc]
    exact .next .first (quoted_quote item _) (items_strings items rest)

def memberText (m : String × Json) : String :=
  quote m.1 ++ ":" ++ m.2.compact

theorem object_toList (ms : List (String × Json)) :
    (Json.object ms).compact.toList =
      '\x7b' :: ((",".intercalate (ms.map memberText)).toList ++ ['\x7d']) := by
  have hmembers : compactMembers ms = ms.map memberText := by
    induction ms with
    | nil => rfl
    | cons m ms ih => rw [compactMembers, ih, List.map_cons, memberText]
  rw [compact, hmembers]
  simp

theorem endsNumber_further (texts : List String) (rest : List Char) :
    EndsNumber (further texts ++ '\x7d' :: rest) := by
  intro c hc
  cases texts with
  | nil =>
    cases hc
    decide
  | cons text texts =>
    rw [further_cons] at hc
    cases hc
    decide

section Members

variable {form : α → String → Form α} {x z : α} {first : Bool}

theorem members_close {rest' : List Char} :
    Members form first x ('\x7d' :: rest) z rest' ↔ x = z ∧ rest' = rest := by
  have hother : ∀ {c a}, isBlank c = false → Blanks ('\x7d' :: rest) (c :: a) →
      '\x7d' = c ∧ rest = a := fun hc => (blanks_cons_cons_iff (by decide) hc).mp
  constructor
  · intro h
    cases h with
    | close hclose => exact ⟨rfl, (hother (by decide) hclose).2.symm⟩
    | next hnext hkey =>
      cases hnext with
      | first =>
        rcases hkey with ⟨_, hquote, _⟩
        exact absurd (hother (by decide) hquote).1 (by decide)
      | comma hcomma => exact absurd (hother (by decide) hcomma).1 (by decide)
  · rintro ⟨rfl, rfl⟩
    exact .close (.refl _)

theorem members_iff {m : String × Json} {answer : Option α} {tail : List Char}
    (hseparator : ∀ a, Separator first input a ↔ (memberText m).toList ++ tail = a)
    (hopen : ∀ after, ¬ Blanks input ('\x7d' :: after)) (htail : EndsNumber tail)
    (hvalue : Writes (form x m.1) (':' :: m.2.compact.toList) answer) :
    Members form first x input z rest ↔
      ∃ y, answer = some y ∧ Members form false y tail z rest := by
  have hkey := quoted_quote m.1 (':' :: m.2.compact.toList ++ tail)
  have htext : (quote m.1).toList ++ (':' :: m.2.compact.toList ++ tail) =
      (memberText m).toList ++ tail := by simp [memberText]
  rw [htext] at hkey
  constructor
  · intro h
    cases h with
    | close hclose => exact absurd hclose (hopen _)
    | next hnext hkey' hmember hrest =>
      obtain rfl := (hseparator _).mp hnext
      obtain ⟨rfl, rfl⟩ := string_exact.unique hkey hkey'
      obtain ⟨hanswer, rfl⟩ := (hvalue tail htail _ _).mp hmember
      exact ⟨_, hanswer, hrest⟩
  · rintro ⟨y, hanswer, hrest⟩
    exact .next ((hseparator _).mpr rfl) hkey ((hvalue tail htail _ _).mpr ⟨hanswer, rfl⟩) hrest

variable {ι : Type} {toMember : ι → String × Json} {next : α → ι → Option α} {items : List ι}
  (hmember : ∀ i ∈ items, ∀ x,
    Writes (form x (toMember i).1) (':' :: (toMember i).2.compact.toList) (next x i))
include hmember

theorem members_further {rest' : List Char} :
    Members form false x (further ((items.map toMember).map memberText) ++ '\x7d' :: rest) z rest' ↔
      items.foldlM next x = some z ∧ rest' = rest := by
  induction items generalizing x with
  | nil => exact members_close.trans (and_congr_left' Option.some_inj.symm)
  | cons i items ih =>
    have htail := endsNumber_further ((items.map toMember).map memberText) rest
    rw [List.map_cons, List.map_cons, further_cons, List.cons_append, List.append_assoc,
      members_iff ?_ ?_ htail (hmember i List.mem_cons_self x), List.foldlM_cons,
      Option.bind_eq_bind, Option.bind_eq_some_iff]
    · simp only [ih fun j hj => hmember j (List.mem_cons_of_mem i hj), ← and_assoc,
        exists_and_right]
    · intro a
      constructor
      · rintro (_ | hcomma)
        exact ((blanks_cons_cons_iff (by decide) (by decide)).mp hcomma).2
      · rintro rfl
        exact .comma (.refl _)
    · intro after h
      exact absurd ((blanks_cons_cons_iff (by decide) (by decide)).mp h).1 (by decide)

theorem members_writes (start : α) :
    Writes (Members form true start)
      ((",".intercalate ((items.map toMember).map memberText)).toList ++ ['\x7d'])
      (items.foldlM next start) := by
  intro rest _ z rest'
  rw [List.append_assoc, List.singleton_append]
  cases items with
  | nil => exact members_close.trans (and_congr_left' Option.some_inj.symm)
  | cons i items =>
    have htail := endsNumber_further ((items.map toMember).map memberText) rest
    rw [List.map_cons, List.map_cons, intercalate_toList, List.append_assoc,
      members_iff ?_ ?_ htail (hmember i List.mem_cons_self start), List.foldlM_cons,
      Option.bind_eq_bind, Option.bind_eq_some_iff]
    · simp only [members_further fun j hj => hmember j (List.mem_cons_of_mem i hj), ← and_assoc,
        exists_and_right]
    · intro a
      constructor
      · rintro ⟨⟩
        rfl
      · rintro rfl
        exact .first
    · intro after h
      rw [memberText, String.toList_append, String.toList_append, quote_toList] at h
      exact absurd ((blanks_cons_cons_iff (by decide) (by decide)).mp h).1 (by decide)

theorem object_writes (start : α) :
    Writes (ObjectOf form start) (Json.object (items.map toMember)).compact.toList
      (items.foldlM next start) := by
  intro rest hrest z rest'
  rw [object_toList, List.cons_append]
  refine Iff.trans ?_ (members_writes hmember start rest hrest z rest')
  constructor
  · rintro ⟨mid, hopen, hmembers⟩
    rw [((blanks_cons_cons_iff (by decide) (by decide)).mp hopen).2]
    exact hmembers
  · exact fun hmembers => ⟨_, .refl _, hmembers⟩

end Members

namespace RecordForm

/-- A member of a record: its key, its value, and what it does to the record
when it is read. -/
structure Entry (α : Type) where
  key : String
  value : Json
  put : α → Option α

def Entry.member (entry : Entry α) : String × Json :=
  (entry.key, entry.value)

def readEntry (r : Reading α) (entry : Entry α) : Option (Reading α) :=
  if entry.key ∈ r.seen then none else (entry.put r.value).map (fun a => ⟨a, entry.key :: r.seen⟩)

theorem foldlM_readEntry {entries : List (Entry α)} {r : Reading α}
    (hnodup : (entries.map Entry.key).Nodup) (hnew : ∀ e ∈ entries, e.key ∉ r.seen) :
    entries.foldlM readEntry r =
      (entries.foldlM (fun a e => Entry.put e a) r.value).map
        (fun a => ⟨a, (entries.map Entry.key).reverse ++ r.seen⟩) := by
  induction entries generalizing r with
  | nil => rfl
  | cons e entries ih =>
    rw [List.map_cons, List.nodup_cons] at hnodup
    rw [List.foldlM_cons, List.foldlM_cons, readEntry,
      if_neg (hnew e List.mem_cons_self)]
    cases hput : e.put r.value with
    | none => rfl
    | some a =>
      change entries.foldlM readEntry ⟨a, e.key :: r.seen⟩ = _
      have hnext : ∀ e' ∈ entries, e'.key ∉ e.key :: r.seen := by
        intro e' he' hmem
        rcases List.mem_cons.mp hmem with heq | hseen
        · exact hnodup.1 (heq ▸ List.mem_map_of_mem he')
        · exact hnew e' (List.mem_cons_of_mem e he') hseen
      rw [ih hnodup.2 hnext]
      simp

variable {s : RecordForm α}

theorem member_writes (hdistinct : (s.fields.map FieldForm.name).Nodup) {e : Entry α}
    {f : FieldForm α} (hf : f ∈ s.fields) (hname : f.name = e.key)
    (hvalue : ∀ a, Writes (f.form a) e.value.compact.toList (e.put a)) (r : Reading α) :
    Writes (s.Member r e.key) (':' :: e.value.compact.toList) (readEntry r e) := by
  intro rest hrest r' rest'
  constructor
  · intro h
    cases h with
    | field hf' hname' hnew hcolon hvalue' =>
      obtain rfl := List.inj_on_of_nodup_map hdistinct hf hf' (hname.trans hname'.symm)
      obtain ⟨_, rfl⟩ := (blanks_cons_cons_iff (by decide) (by decide)).mp hcolon
      obtain ⟨hput, rfl⟩ := (hvalue _ rest hrest _ _).mp hvalue'
      rw [readEntry, if_neg hnew, hput]
      exact ⟨rfl, rfl⟩
    | unknown _ hother => exact absurd hname (hother f hf)
  · rintro ⟨hread, rfl⟩
    rw [readEntry] at hread
    split at hread
    · cases hread
    · rename_i hnew
      obtain ⟨a, hput, rfl⟩ := Option.map_eq_some_iff.mp hread
      exact .field hf hname hnew (.refl _) ((hvalue _ _ hrest _ _).mpr ⟨hput, rfl⟩)

theorem written_writes (hdistinct : (s.fields.map FieldForm.name).Nodup) (entries : List (Entry α))
    (h : List.Forall₂ (fun f e => f.name = Entry.key e ∧
      ∀ a, Writes (f.form a) e.value.compact.toList (e.put a)) s.fields entries) :
    Writes s.Written (Json.object (entries.map Entry.member)).compact.toList
      (entries.foldlM (fun a e => Entry.put e a) s.start) := by
  have hkeys : s.fields.map FieldForm.name = entries.map Entry.key := by
    rw [← List.forall₂_eq_eq_eq, List.forall₂_map_left_iff, List.forall₂_map_right_iff]
    exact h.imp fun _ _ h => h.1
  have hmember : ∀ e ∈ entries, ∀ r,
      Writes (s.Member r (Entry.member e).1) (':' :: (Entry.member e).2.compact.toList)
        (readEntry r e) := by
    intro e he
    obtain ⟨n, hn, rfl⟩ := List.getElem_of_mem he
    have hfield := h.get (by rw [h.length_eq]; exact hn) hn
    exact member_writes hdistinct (List.get_mem _ _) hfield.1 hfield.2
  intro rest hrest a rest'
  have hwrites := members_writes hmember ⟨s.start, []⟩ rest hrest
  rw [foldlM_readEntry (hkeys ▸ hdistinct) (by simp)] at hwrites
  rw [object_toList, List.cons_append]
  constructor
  · intro h
    cases h with
    | list hopen =>
      exact absurd ((blanks_cons_cons_iff (by decide) (by decide)).mp hopen).1 (by decide)
    | object hopen hmembers =>
      obtain ⟨_, rfl⟩ := (blanks_cons_cons_iff (by decide) (by decide)).mp hopen
      obtain ⟨hr, rfl⟩ := (hwrites _ _).mp hmembers
      obtain ⟨b, hb, rfl⟩ := Option.map_eq_some_iff.mp hr
      exact ⟨hb, rfl⟩
  · rintro ⟨hfold, rfl⟩
    refine .object (r := ⟨a, (entries.map Entry.key).reverse ++ []⟩) (.refl _)
      ((hwrites _ _).mpr ⟨by rw [hfold]; rfl, rfl⟩) fun f hf => ?_
    rw [List.append_nil, List.mem_reverse, ← hkeys]
    exact List.mem_map_of_mem hf

end RecordForm

end Form
end Json
end ScriptBundler
