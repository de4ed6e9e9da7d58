import Mathlib.Data.List.Basic
import ScriptBundler.Proofs.JsonGrammar

/-!
# Skipping values

A value whose type does not matter is skipped with a stack of the brackets that
are open.  The grammar of such values has no stack: brackets hold values, and
what is left open is what the brackets around them still ask of the text.
-/

namespace ScriptBundler
namespace Json
namespace Form

open Reader

variable {input rest mid : List Char} {inObject : Bool} {brackets : List Bool}

inductive Scalar : List Char → List Char → Prop
  | word {w : String} {input rest : List Char} (hw : w ∈ ["null", "true", "false"])
      (hinput : Blanks input (w.toList ++ rest)) : Scalar input rest
  | text {s : String} {input rest : List Char} (htext : Quoted false input s rest) :
      Scalar input rest
  | number {input mid rest : List Char} (hinput : Blanks input mid) (hnumber : Number mid rest) :
      Scalar input rest
  | negative {input mid rest : List Char} (hinput : Blanks input ('-' :: mid))
      (hnumber : Number mid rest) : Scalar input rest

theorem word_eq_ok_iff {w input rest : List Char} :
    word w input = .ok ((), rest) ↔ input = w ++ rest := by
  induction w generalizing input with
  | nil =>
    rw [word]
    constructor
    · intro h
      cases h
      rfl
    · rintro rfl
      rfl
  | cons c w ih =>
    rw [word, bind_of_ok (get_apply input)]
    cases input with
    | nil =>
      constructor
      · intro h
        exact absurd h (unexpected_ne_ok _ _)
      · intro h
        cases h
    | cons first tail =>
      rw [List.head?_cons, List.cons_append, List.cons.injEq]
      by_cases hfirst : first = c
      · rw [if_pos (congrArg some hfirst), bind_of_ok (advance_cons _ _), ih]
        simp [hfirst]
      · rw [if_neg (fun h => hfirst (Option.some.inj h))]
        constructor
        · intro h
          exact absurd h (unexpected_ne_ok _ _)
        · intro h
          exact absurd h.1 hfirst

theorem scalar_of_word {w : String} (hw : w ∈ ["null", "true", "false"])
    (h : word w.toList (input.dropWhile isBlank) = .ok ((), rest)) : Scalar input rest := by
  refine .word hw ?_
  rw [← word_eq_ok_iff.mp h]
  exact blanks_dropWhile input

theorem scalar_of_skipScalar (h : skipScalar input = .ok ((), rest)) : Scalar input rest := by
  unfold skipScalar at h
  rw [peek_bind] at h
  generalize hnext : (input.dropWhile isBlank).head? = next at h
  split at h
  · exact scalar_of_word (w := "null") (by decide) h
  · exact scalar_of_word (w := "true") (by decide) h
  · exact scalar_of_word (w := "false") (by decide) h
  · rcases List.head?_eq_some_iff.mp hnext with ⟨mid, hdrop⟩
    rw [hdrop, bind_of_ok (advance_cons _ _)] at h
    rcases bind_eq_ok_iff.mp h with ⟨s, last, htext, h⟩
    cases h
    exact .text ⟨mid, (blanks_cons_iff (by decide)).mpr hdrop, text_eq_ok_iff.mp htext⟩
  · rcases List.head?_eq_some_iff.mp hnext with ⟨mid, hdrop⟩
    rw [hdrop, bind_of_ok (advance_cons _ _), skipNumber_eq_ok_iff] at h
    exact .negative ((blanks_cons_iff (by decide)).mpr hdrop) h
  · split at h
    · exact .number (blanks_dropWhile input) (skipNumber_eq_ok_iff.mp h)
    · exact absurd h (unexpected_ne_ok _ _)
  · exact absurd h (unexpected_ne_ok _ _)

theorem skipScalar_of_isDigit {c : Char} (hc : c.isDigit = true)
    (hdrop : input.dropWhile isBlank = c :: mid) : skipScalar input = skipNumber (c :: mid) := by
  unfold skipScalar
  rw [peek_bind, hdrop, List.head?_cons]
  generalize hnext : some c = next
  split
  case h_6 first _ _ _ _ _ =>
    cases hnext
    rw [if_pos hc]
  all_goals cases hnext
  all_goals exact absurd hc (by decide)

theorem skipScalar_of_scalar (h : Scalar input rest) : skipScalar input = .ok ((), rest) := by
  cases h with
  | @word w _ _ hw hinput =>
    have hcases : w = "null" ∨ w = "true" ∨ w = "false" := by simpa using hw
    rcases hcases with rfl | rfl | rfl <;>
      (unfold skipScalar
       rw [peek_bind, (blanks_cons_iff (by decide)).mp hinput]
       exact word_eq_ok_iff.mpr rfl)
  | text htext =>
    rcases htext with ⟨mid, hmid, hbody⟩
    unfold skipScalar
    rw [peek_bind, (blanks_cons_iff (by decide)).mp hmid]
    refine (bind_of_ok (advance_cons _ _)).trans ?_
    exact (bind_of_ok (text_eq_ok_iff.mpr hbody)).trans rfl
  | number hinput hnumber =>
    rcases hnumber with ⟨ds, a, b, hwhole, hrest⟩
    rcases hds : ds with _ | ⟨c, cs⟩
    · exact absurd hds hwhole.2.1
    have hmid := hwhole.1.1
    rw [hds, List.cons_append] at hmid
    have hc : c.isDigit = true := isDigit_of_digitRun hwhole.1 hwhole.2.1 hmid
    rw [hmid] at hinput
    rw [skipScalar_of_isDigit hc ((blanks_cons_iff (isBlank_of_isDigit hc)).mp hinput), ← hmid]
    exact skipNumber_eq_ok_iff.mpr ⟨ds, a, b, hwhole, hrest⟩
  | negative hinput hnumber =>
    unfold skipScalar
    rw [peek_bind, (blanks_cons_iff (by decide)).mp hinput]
    exact (bind_of_ok (advance_cons _ _)).trans (skipNumber_eq_ok_iff.mpr hnumber)

theorem Scalar.length_lt (h : Scalar input rest) : rest.length < input.length := by
  cases h with
  | word hw hinput =>
    have hlength := hinput.length_le
    have hpos : ∀ w ∈ ["null", "true", "false"], 0 < w.toList.length := by decide
    have hw := hpos _ hw
    rw [List.length_append] at hlength
    omega
  | text htext => exact htext.length_lt
  | number hinput hnumber => exact Nat.lt_of_lt_of_le hnumber.length_lt hinput.length_le
  | negative hinput hnumber =>
    have hlength := hinput.length_le
    have hshorter := hnumber.length_lt
    rw [List.length_cons] at hlength
    omega

def Label (inObject : Bool) (input rest : List Char) : Prop :=
  match inObject with
  | false => Blanks input rest
  | true => ∃ s mid, Quoted false input s mid ∧ Blanks mid (':' :: rest)

theorem skipKey_eq_ok_iff : skipKey input = .ok ((), rest) ↔ Label true input rest := by
  unfold skipKey
  rw [bind_eq_ok_iff]
  constructor
  · rintro ⟨_, mid, hquote, h⟩
    rcases bind_eq_ok_iff.mp h with ⟨s, last, htext, h⟩
    exact ⟨s, last, ⟨mid, (expect_eq_ok_iff (by decide)).mp hquote, text_eq_ok_iff.mp htext⟩,
      (expect_eq_ok_iff (by decide)).mp h⟩
  · rintro ⟨s, last, ⟨mid, hquote, htext⟩, hcolon⟩
    refine ⟨(), mid, (expect_eq_ok_iff (by decide)).mpr hquote, ?_⟩
    rw [bind_of_ok (text_eq_ok_iff.mpr htext)]
    exact (expect_eq_ok_iff (by decide)).mpr hcolon

theorem Label.length_le (h : Label inObject input rest) : rest.length ≤ input.length := by
  cases inObject with
  | false => exact Blanks.length_le h
  | true =>
    rcases h with ⟨s, mid, hquoted, hcolon⟩
    have hlength := hcolon.length_le
    have hshorter := hquoted.length_lt
    rw [List.length_cons] at hlength
    omega

def opening (inObject : Bool) : Char :=
  if inObject then '\x7b' else '['

def closing (inObject : Bool) : Char :=
  if inObject then '\x7d' else ']'

/-- What is skipped: a value of any type or, inside brackets, what follows a
value up to where the brackets close. -/
inductive Skipped : Option Bool → List Char → List Char → Prop
  | scalar {input rest : List Char} (hscalar : Scalar input rest) : Skipped none input rest
  | empty {inObject : Bool} {input mid rest : List Char}
      (hopen : Blanks input (opening inObject :: mid))
      (hclose : Blanks mid (closing inObject :: rest)) : Skipped none input rest
  | brackets {inObject : Bool} {input a b c rest : List Char}
      (hopen : Blanks input (opening inObject :: a)) (hlabel : Label inObject a b)
      (hvalue : Skipped none b c) (hrest : Skipped (some inObject) c rest) :
      Skipped none input rest
  | close {inObject : Bool} {input rest : List Char}
      (hclose : Blanks input (closing inObject :: rest)) : Skipped (some inObject) input rest
  | next {inObject : Bool} {input a b c rest : List Char} (hcomma : Blanks input (',' :: a))
      (hlabel : Label inObject a b) (hvalue : Skipped none b c)
      (hrest : Skipped (some inObject) c rest) : Skipped (some inObject) input rest

theorem Skipped.length_lt {part : Option Bool} (h : Skipped part input rest) :
    rest.length < input.length := by
  induction h with
  | scalar hscalar => exact hscalar.length_lt
  | empty hopen hclose =>
    have hopen := hopen.length_le
    have hclose := hclose.length_le
    rw [List.length_cons] at hopen hclose
    omega
  | brackets hopen hlabel _ _ ihvalue ihrest =>
    have hopen := hopen.length_le
    have hlabel := hlabel.length_le
    rw [List.length_cons] at hopen
    omega
  | close hclose =>
    have hclose := hclose.length_le
    rw [List.length_cons] at hclose
    omega
  | next hcomma hlabel _ _ ihvalue ihrest =>
    have hcomma := hcomma.length_le
    have hlabel := hlabel.length_le
    rw [List.length_cons] at hcomma
    omega

/-!
# Skipping with a stack

The stack holds the brackets that are open, and what is skipped closes them one by
one.
-/

def skipLabelled (inObject : Bool) (n : Nat) (brackets : List Bool) : Reader Unit :=
  if inObject then skipKey >>= fun _ => skipInside n (true :: brackets)
  else skipInside n (false :: brackets)

theorem isBlank_opening (inObject : Bool) : isBlank (opening inObject) = false := by
  cases inObject <;> decide

theorem isBlank_closing (inObject : Bool) : isBlank (closing inObject) = false := by
  cases inObject <;> decide

theorem skipInside_opening (h : input.dropWhile isBlank = opening inObject :: mid) (n : Nat)
    (brackets : List Bool) :
    skipInside (n + 1) brackets input =
      if (mid.dropWhile isBlank).head? = some (closing inObject) then
        closeInside n brackets ((mid.dropWhile isBlank).drop 1)
      else skipLabelled inObject n brackets (mid.dropWhile isBlank) := by
  rw [skipInside, peek_bind, h]
  cases inObject
  all_goals
    refine (bind_of_ok (advance_cons _ _)).trans ((peek_bind _ _).trans ?_)
    split
    · rename_i hclose
      exact (if_pos hclose).symm
    · rename_i hclose
      exact (if_neg hclose).symm

theorem skipInside_scalar
    (h : ∀ inObject, (input.dropWhile isBlank).head? ≠ some (opening inObject)) (n : Nat)
    (brackets : List Bool) :
    skipInside (n + 1) brackets input =
      (skipScalar >>= fun _ => closeInside n brackets) (input.dropWhile isBlank) := by
  rw [skipInside, peek_bind]
  generalize hnext : (input.dropWhile isBlank).head? = next at h
  split
  · exact absurd rfl (h false)
  · exact absurd rfl (h true)
  · rfl

theorem closeInside_comma (h : input.dropWhile isBlank = ',' :: mid) (n : Nat) (inObject : Bool)
    (brackets : List Bool) :
    closeInside (n + 1) (inObject :: brackets) input = skipLabelled inObject n brackets mid := by
  rw [closeInside, peek_bind, h]
  cases inObject <;> rfl

theorem closeInside_closing (h : input.dropWhile isBlank = closing inObject :: mid) (n : Nat)
    (brackets : List Bool) :
    closeInside (n + 1) (inObject :: brackets) input = closeInside n brackets mid := by
  rw [closeInside, peek_bind, h]
  cases inObject <;> rfl

theorem closeInside_cases {n : Nat} {p : Unit × List Char}
    (h : closeInside (n + 1) (inObject :: brackets) input = .ok p) :
    ∃ c mid, input.dropWhile isBlank = c :: mid ∧ (c = ',' ∨ c = closing inObject) := by
  rw [closeInside, peek_bind] at h
  generalize hnext : (input.dropWhile isBlank).head? = next at h
  split at h
  · rcases List.head?_eq_some_iff.mp hnext with ⟨mid, hdrop⟩
    exact ⟨',', mid, hdrop, .inl rfl⟩
  · rename_i c _
    rcases List.head?_eq_some_iff.mp hnext with ⟨mid, hdrop⟩
    by_cases hc : c = closing inObject
    · exact ⟨c, mid, hdrop, .inr hc⟩
    · change (if c = closing inObject then _ else unexpected) _ = _ at h
      rw [if_neg hc] at h
      exact absurd h (unexpected_ne_ok _ _)
  · exact absurd h (unexpected_ne_ok _ _)

/-- What closes the brackets of a stack, the innermost first. -/
def Closes : List Bool → List Char → List Char → Prop
  | [], input, rest => input = rest
  | inObject :: brackets, input, rest =>
    ∃ mid, Skipped (some inObject) input mid ∧ Closes brackets mid rest

theorem label_of_skipLabelled {n : Nat}
    (h : skipLabelled inObject n brackets input = .ok ((), rest)) :
    ∃ mid, Label inObject input mid ∧ skipInside n (inObject :: brackets) mid = .ok ((), rest) := by
  cases inObject with
  | false => exact ⟨input, .refl input, h⟩
  | true =>
    rcases bind_eq_ok_iff.mp h with ⟨_, mid, hkey, h⟩
    exact ⟨mid, skipKey_eq_ok_iff.mp hkey, h⟩

theorem Label.of_blanks {a b c : List Char} (hab : Blanks a b) (h : Label inObject b c) :
    Label inObject a c := by
  cases inObject with
  | false => exact hab.trans h
  | true =>
    rcases h with ⟨s, mid, ⟨first, hfirst, hbody⟩, hcolon⟩
    exact ⟨s, mid, ⟨first, hab.trans hfirst, hbody⟩, hcolon⟩

theorem Scalar.of_blanks {a b c : List Char} (hab : Blanks a b) (h : Scalar b c) : Scalar a c := by
  cases h with
  | word hw hinput => exact .word hw (hab.trans hinput)
  | text htext =>
    rcases htext with ⟨mid, hmid, hbody⟩
    exact .text ⟨mid, hab.trans hmid, hbody⟩
  | number hinput hnumber => exact .number (hab.trans hinput) hnumber
  | negative hinput hnumber => exact .negative (hab.trans hinput) hnumber

/-- What the reader skips is a value and the ends of the brackets around it.
The induction is on the steps that it may take. -/
theorem skipped_of_steps (n : Nat) :
    (∀ brackets input rest, skipInside n brackets input = .ok ((), rest) →
      ∃ mid, Skipped none input mid ∧ Closes brackets mid rest) ∧
    (∀ brackets input rest, closeInside n brackets input = .ok ((), rest) →
      Closes brackets input rest) := by
  induction n with
  | zero =>
    constructor
    · intro brackets input rest h
      rw [skipInside] at h
      exact absurd h (unexpected_ne_ok _ _)
    · intro brackets input rest h
      rw [closeInside] at h
      exact absurd h (unexpected_ne_ok _ _)
  | succ n ih =>
    rcases ih with ⟨ihskip, ihclose⟩
    constructor
    · intro brackets input rest h
      by_cases hopen : ∃ inObject, (input.dropWhile isBlank).head? = some (opening inObject)
      · rcases hopen with ⟨inObject, hopen⟩
        rcases List.head?_eq_some_iff.mp hopen with ⟨mid, hdrop⟩
        have hopen := (blanks_cons_iff (isBlank_opening inObject)).mpr hdrop
        rw [skipInside_opening hdrop] at h
        split at h
        · rename_i hclose
          rcases List.head?_eq_some_iff.mp hclose with ⟨last, hlast⟩
          rw [hlast] at h
          exact ⟨last, .empty hopen ((blanks_cons_iff (isBlank_closing inObject)).mpr hlast),
            ihclose brackets last rest h⟩
        · rcases label_of_skipLabelled h with ⟨next, hlabel, h⟩
          rcases ihskip _ _ _ h with ⟨after, hvalue, last, hrest, hcloses⟩
          exact ⟨last, .brackets hopen (hlabel.of_blanks (blanks_dropWhile mid)) hvalue hrest,
            hcloses⟩
      · rw [skipInside_scalar (fun inObject h => hopen ⟨inObject, h⟩)] at h
        rcases bind_eq_ok_iff.mp h with ⟨_, mid, hscalar, h⟩
        have hscalar := (scalar_of_skipScalar hscalar).of_blanks (blanks_dropWhile input)
        exact ⟨mid, .scalar hscalar, ihclose brackets mid rest h⟩
    · intro brackets input rest h
      cases brackets with
      | nil =>
        rw [closeInside] at h
        cases h
        exact rfl
      | cons inObject brackets =>
        rcases closeInside_cases h with ⟨c, mid, hdrop, rfl | rfl⟩
        · rw [closeInside_comma hdrop] at h
          rcases label_of_skipLabelled h with ⟨next, hlabel, h⟩
          rcases ihskip _ _ _ h with ⟨after, hvalue, last, hrest, hcloses⟩
          exact ⟨last, .next ((blanks_cons_iff (by decide)).mpr hdrop) hlabel hvalue hrest,
            hcloses⟩
        · rw [closeInside_closing hdrop] at h
          exact ⟨mid, .close ((blanks_cons_iff (isBlank_closing inObject)).mpr hdrop),
            ihclose brackets mid rest h⟩

theorem skipInside_of_blanks (h : Blanks input mid) (n : Nat) (brackets : List Bool) :
    skipInside (n + 1) brackets input = skipInside (n + 1) brackets mid := by
  rw [skipInside, peek_bind, peek_bind, h.dropWhile_eq]

theorem skipLabelled_of_blanks (h : Blanks input mid) (inObject : Bool) (n : Nat)
    (brackets : List Bool) :
    skipLabelled inObject (n + 1) brackets input = skipLabelled inObject (n + 1) brackets mid := by
  cases inObject with
  | false => exact skipInside_of_blanks h n _
  | true =>
    refine bind_congr_input (bind_congr_input ?_)
    unfold expect
    rw [peek_bind, peek_bind, h.dropWhile_eq]

theorem skipLabelled_of_label (h : Label inObject input mid) (n : Nat) (brackets : List Bool) :
    skipLabelled inObject (n + 1) brackets input =
      skipInside (n + 1) (inObject :: brackets) mid := by
  cases inObject with
  | false => exact skipInside_of_blanks h n _
  | true => exact bind_of_ok (skipKey_eq_ok_iff.mpr h)

theorem Scalar.head_ne (h : Scalar input rest) (inObject : Bool) :
    (input.dropWhile isBlank).head? ≠ some (opening inObject) ∧
      (input.dropWhile isBlank).head? ≠ some (closing inObject) := by
  have hread := skipScalar_of_scalar h
  unfold skipScalar at hread
  rw [peek_bind] at hread
  constructor
  all_goals
    intro hnext
    rw [hnext] at hread
    cases inObject <;> exact absurd hread (unexpected_ne_ok _ _)

theorem Label.head_ne_closing {input a b : List Char} (h : Label inObject input a)
    (hvalue : Skipped none a b) : (input.dropWhile isBlank).head? ≠ some (closing inObject) := by
  cases inObject with
  | true =>
    rcases h with ⟨s, mid, ⟨first, hfirst, _⟩, _⟩
    rw [(blanks_cons_iff (by decide)).mp hfirst]
    exact fun h => absurd (Option.some.inj h) (by decide)
  | false =>
    rw [Blanks.dropWhile_eq h]
    cases hvalue with
    | scalar hscalar => exact (hscalar.head_ne false).2
    | @empty inObject _ _ _ hopen _ =>
      rw [(blanks_cons_iff (isBlank_opening inObject)).mp hopen]
      exact fun h => absurd (Option.some.inj h) (by cases inObject <;> decide)
    | @brackets inObject _ _ _ _ _ hopen _ _ _ =>
      rw [(blanks_cons_iff (isBlank_opening inObject)).mp hopen]
      exact fun h => absurd (Option.some.inj h) (by cases inObject <;> decide)

def skipPart (part : Option Bool) (n : Nat) (brackets : List Bool) : Reader Unit :=
  match part with
  | none => skipInside n brackets
  | some inObject => closeInside n (inObject :: brackets)

/-- With two steps for each character the reader skips a value, or the end of
some brackets, and goes on with the brackets around it. -/
theorem Skipped.steps {part : Option Bool} (h : Skipped part input mid) {p : Unit × List Char}
    {m : Nat} (hafter : ∀ k, m ≤ k → closeInside k brackets mid = .ok p) :
    ∀ k, m + 2 * (input.length - mid.length) ≤ k → skipPart part k brackets input = .ok p := by
  have hlength := h.length_lt
  induction h generalizing brackets p m with
  | scalar hscalar =>
    intro k hk
    rcases k with _ | k
    · omega
    change skipInside (k + 1) brackets _ = .ok p
    rw [skipInside_scalar (fun inObject => (hscalar.head_ne inObject).1)]
    have hread : skipScalar (List.dropWhile isBlank _) = _ :=
      (peek_bind_dropWhile _ _).trans (skipScalar_of_scalar hscalar)
    rw [bind_of_ok hread]
    exact hafter k (by omega)
  | @empty inObject input a rest hopen hclose =>
    intro k hk
    rcases k with _ | k
    · omega
    have hclose := (blanks_cons_iff (isBlank_closing inObject)).mp hclose
    change skipInside (k + 1) brackets input = .ok p
    rw [skipInside_opening ((blanks_cons_iff (isBlank_opening inObject)).mp hopen), hclose,
      List.head?_cons, if_pos rfl]
    exact hafter k (by omega)
  | @brackets inObject input a b c rest hopen hlabel hvalue hrest ihvalue ihrest =>
    intro k hk
    have hopen' := hopen.length_le
    have hlabel' := hlabel.length_le
    have hvalue' := hvalue.length_lt
    have hrest' := hrest.length_lt
    rw [List.length_cons] at hopen'
    rcases k with _ | _ | k
    · omega
    · omega
    have hdrop := (blanks_cons_iff (isBlank_opening inObject)).mp hopen
    change skipInside (k + 2) brackets input = .ok p
    rw [skipInside_opening hdrop, if_neg (hlabel.head_ne_closing hvalue),
      ← skipLabelled_of_blanks (blanks_dropWhile a), skipLabelled_of_label hlabel]
    exact ihvalue (ihrest hafter hrest') hvalue' (k + 1) (by omega)
  | @close inObject input rest hclose =>
    intro k hk
    rcases k with _ | k
    · omega
    change closeInside (k + 1) (inObject :: brackets) input = .ok p
    rw [closeInside_closing ((blanks_cons_iff (isBlank_closing inObject)).mp hclose)]
    exact hafter k (by omega)
  | @next inObject input a b c rest hcomma hlabel hvalue hrest ihvalue ihrest =>
    intro k hk
    have hcomma' := hcomma.length_le
    have hlabel' := hlabel.length_le
    have hvalue' := hvalue.length_lt
    have hrest' := hrest.length_lt
    rw [List.length_cons] at hcomma'
    rcases k with _ | _ | k
    · omega
    · omega
    change closeInside (k + 2) (inObject :: brackets) input = .ok p
    rw [closeInside_comma ((blanks_cons_iff (by decide)).mp hcomma), skipLabelled_of_label hlabel]
    exact ihvalue (ihrest hafter hrest') hvalue' (k + 1) (by omega)

theorem skip_eq_ok_iff : skip input = .ok ((), rest) ↔ Skipped none input rest := by
  unfold skip
  rw [bind_of_ok (get_apply input)]
  constructor
  · intro h
    rcases (skipped_of_steps _).1 _ _ _ h with ⟨mid, hvalue, rfl⟩
    exact hvalue
  · intro h
    have hafter : ∀ k, 1 ≤ k → closeInside k [] rest = .ok ((), rest) := by
      intro k hk
      rcases k with _ | k
      · omega
      rw [closeInside]
      rfl
    exact h.steps hafter (2 * input.length + 2) (by omega)

end Form
end Json
end ScriptBundler
