import Mathlib.Data.List.Basic
import ScriptBundler.Json.Reader
import ScriptBundler.Text.Decimal

/-!
# The grammar of JSON

What a text writes is said by relations between a text, the value written at its
front and what is left of the text.  They know nothing of faults, of stacks or
of how long a reader may run.  Each reader is exact for its relation: it gives a
value and a rest if and only if the relation holds of them.
-/

namespace ScriptBundler
namespace Json

variable {input rest mid ds : List Char} {c : Char} {n : Nat} {strict : Bool} {s : String}

namespace Reader

variable {α β : Type} {x : Reader α} {f : α → Reader β}

theorem bind_of_ok {a : α} (h : x input = .ok (a, rest)) : (x >>= f) input = f a rest := by
  change StateT.bind x f input = f a rest
  rw [StateT.bind, h]
  rfl

theorem bind_of_error {fault : Fault}
    (h : x input = .error fault) : (x >>= f) input = .error fault := by
  change StateT.bind x f input = .error fault
  rw [StateT.bind, h]
  rfl

theorem get_apply (input : List Char) : (get : Reader (List Char)) input = .ok (input, input) :=
  rfl

theorem advance_cons (c : Char) (rest : List Char) : advance (c :: rest) = .ok ((), rest) :=
  rfl

/-!
# Digits

Digits are taken up one by one, as long as the number fits into 64 bits.
-/

def EndsNumber (rest : List Char) : Prop :=
  ∀ c ∈ rest.head?, c.isDigit = false ∧ c ≠ '.' ∧ c ≠ 'e' ∧ c ≠ 'E'

theorem digits_append {ds rest : List Char} (hds : ∀ c ∈ ds, c.isDigit = true)
    (hrest : ∀ c ∈ rest.head?, c.isDigit = false) : digits (ds ++ rest) = .ok (ds, rest) := by
  change Except.ok ((ds ++ rest).takeWhile Char.isDigit,
    (ds ++ rest).drop ((ds ++ rest).takeWhile Char.isDigit).length) = _
  have htake : (ds ++ rest).takeWhile Char.isDigit = ds := by
    rw [List.takeWhile_append_of_pos hds]
    cases rest with
    | nil => simp
    | cons c tail =>
      rw [List.takeWhile_cons, hrest c rfl]
      simp
  rw [htake, List.drop_left]

theorem eatEither_of_ne {a b : Char} (hrest : ∀ c ∈ rest.head?, c ≠ a ∧ c ≠ b) :
    eatEither a b rest = .ok (false, rest) := by
  have hnext : ¬ (rest.head? = some a ∨ rest.head? = some b) := by
    rintro (h | h)
    · exact (hrest a h).1 rfl
    · exact (hrest b h).2 rfl
  unfold eatEither
  rw [bind_of_ok (get_apply rest)]
  simp only [hnext, if_false]
  rfl

end Reader

namespace Significand

theorem le_ofDigitChars (cs : List Char) (start : Nat) : start ≤ Nat.ofDigitChars 10 cs start := by
  induction cs generalizing start with
  | nil => exact Nat.le_of_eq Nat.ofDigitChars_nil.symm
  | cons c cs ih =>
    rw [Nat.ofDigitChars_cons]
    exact Nat.le_trans (by omega) (ih _)

theorem exponent_pos_pushWhole {s : Significand} (h : 0 < s.exponent) (cs : List Char) :
    0 < (cs.foldl pushWhole s).exponent := by
  induction cs generalizing s with
  | nil => exact h
  | cons c cs ih =>
    rw [List.foldl_cons]
    refine ih ?_
    rw [pushWhole, if_neg (by omega)]
    change 0 < s.exponent + 1
    omega

theorem pushWhole_of_lt {cs : List Char} {start : Nat}
    (h : Nat.ofDigitChars 10 cs start < wordBound) :
    cs.foldl pushWhole ⟨start, 0⟩ = ⟨Nat.ofDigitChars 10 cs start, 0⟩ := by
  induction cs generalizing start with
  | nil => rw [List.foldl_nil, Nat.ofDigitChars_nil]
  | cons c cs ih =>
    rw [Nat.ofDigitChars_cons] at h ⊢
    have hnext : start * 10 + (c.toNat - '0'.toNat) < wordBound := by
      rw [Nat.mul_comm]
      exact Nat.lt_of_le_of_lt (le_ofDigitChars cs _) h
    rw [List.foldl_cons, pushWhole, if_pos ⟨rfl, hnext⟩, Nat.mul_comm]
    exact ih h

theorem pushWhole_of_le {cs : List Char} {start : Nat} (hstart : start < wordBound)
    (h : wordBound ≤ Nat.ofDigitChars 10 cs start) :
    0 < (cs.foldl pushWhole ⟨start, 0⟩).exponent := by
  induction cs generalizing start with
  | nil =>
    rw [Nat.ofDigitChars_nil] at h
    omega
  | cons c cs ih =>
    rw [Nat.ofDigitChars_cons] at h
    rw [List.foldl_cons, pushWhole]
    split
    · rename_i hnext
      refine ih hnext.2 ?_
      rw [Nat.mul_comm]
      exact h
    · exact exponent_pos_pushWhole Int.zero_lt_one cs

theorem roundBinary_le (n : Nat) : roundBinary n ≤ 2 * n := by
  rcases Nat.eq_zero_or_pos n with rfl | hpos
  · decide
  · have hunit : Nat.pow 2 (n.log2 - 52) ≤ n :=
      Nat.le_trans (Nat.pow_le_pow_right (by decide) (Nat.sub_le _ _))
        (Nat.log2_self_le (Nat.ne_of_gt hpos))
    have hquotient : n / Nat.pow 2 (n.log2 - 52) * Nat.pow 2 (n.log2 - 52) ≤ n :=
      Nat.div_mul_le_self n _
    unfold roundBinary
    dsimp only
    generalize Nat.pow 2 (n.log2 - 52) = unit at hunit hquotient ⊢
    split_ifs
    · omega
    · rw [Nat.add_mul]
      omega
    · omega
    · rw [Nat.add_mul]
      omega

theorem tooLarge_of_lt (h : n < wordBound) : (⟨n, 0⟩ : Significand).tooLarge = false := by
  have hone : roundBinary (Nat.pow 10 0) = 1 := by decide
  have hscale : scaleUp n 0 ≤ 2 * (2 * n * 1) := by
    rw [scaleUp, hone]
    exact Nat.le_trans (roundBinary_le _)
      (Nat.mul_le_mul_left 2 (Nat.mul_le_mul_right 1 (roundBinary_le n)))
  have hbound : 2 * (2 * n * 1) < 2 ^ 66 := by
    have hword : wordBound = 2 ^ 64 := rfl
    omega
  have hlarge : ∀ k, 66 ≤ k → ¬ Nat.pow 2 k ≤ scaleUp n 0 := by
    intro k hk
    have hpow : 2 ^ 66 ≤ 2 ^ k := Nat.pow_le_pow_right (by decide) hk
    rw [Nat.pow_eq]
    omega
  unfold tooLarge
  split_ifs with hzero hneg hhuge
  · rfl
  · rfl
  · change (308 : Int) < 0 at hhuge
    omega
  · exact decide_eq_false (hlarge _ (by decide))

end Significand

/-- A way of writing values at the front of a text. -/
abbrev Form (α : Type) := List Char → α → List Char → Prop

namespace Form

open Reader

def Blanks (input rest : List Char) : Prop :=
  ∃ blanks, (∀ c ∈ blanks, isBlank c = true) ∧ input = blanks ++ rest

theorem Blanks.refl (input : List Char) : Blanks input input :=
  ⟨[], by simp, rfl⟩

theorem blanks_dropWhile (input : List Char) : Blanks input (input.dropWhile isBlank) :=
  ⟨input.takeWhile isBlank, List.all_eq_true.mp List.all_takeWhile,
    List.takeWhile_append_dropWhile.symm⟩

theorem Blanks.dropWhile_eq (h : Blanks input rest) :
    input.dropWhile isBlank = rest.dropWhile isBlank := by
  rcases h with ⟨blanks, hblanks, rfl⟩
  rw [List.dropWhile_append_of_pos hblanks]

theorem Blanks.length_le (h : Blanks input rest) : rest.length ≤ input.length := by
  rcases h with ⟨blanks, _, rfl⟩
  rw [List.length_append]
  omega

theorem Blanks.trans {a b c : List Char} (hab : Blanks a b) (hbc : Blanks b c) : Blanks a c := by
  rcases hab with ⟨left, hleft, rfl⟩
  rcases hbc with ⟨right, hright, rfl⟩
  refine ⟨left ++ right, ?_, (List.append_assoc left right c).symm⟩
  intro x hx
  rcases List.mem_append.mp hx with hx | hx
  · exact hleft x hx
  · exact hright x hx

theorem blanks_cons_iff (hc : isBlank c = false) :
    Blanks input (c :: rest) ↔ input.dropWhile isBlank = c :: rest := by
  constructor
  · intro h
    rw [h.dropWhile_eq, List.dropWhile_cons, hc]
    rfl
  · intro h
    rw [← h]
    exact blanks_dropWhile input

theorem blanks_nil_iff : Blanks input [] ↔ input.all isBlank = true := by
  rw [List.all_eq_true]
  constructor
  · rintro ⟨blanks, hblanks, rfl⟩
    rwa [List.append_nil]
  · intro h
    exact ⟨input, h, (List.append_nil input).symm⟩

/-!
# Texts

A text stands in quotes, with each character as itself or as an escape.
-/

def shortEscapes : List (Char × Char) :=
  [('"', '"'), ('\\', '\\'), ('/', '/'), ('b', '\x08'), ('f', '\x0c'), ('n', '\n'), ('r', '\r'),
    ('t', '\t')]

/-- One character of a text in quotes.  A character that takes two escapes is
written as its halves; where halves may stand alone, each of them counts as a
character. -/
inductive Letter (strict : Bool) : Form Char
  | plain {c : Char} {rest : List Char} (hquote : c ≠ '"') (hslash : c ≠ '\\')
      (hcontrol : 0x20 ≤ c.toNat) : Letter strict (c :: rest) c rest
  | short {letter c : Char} {rest : List Char} (hletter : (letter, c) ∈ shortEscapes) :
      Letter strict ('\\' :: letter :: rest) c rest
  | code {a b c d : Char} {n : Nat} {rest : List Char} (hn : hexQuad [a, b, c, d] = .ok n)
      (hwhole : strict = true → n < 0xd800 ∨ 0xdfff < n) :
      Letter strict ('\\' :: 'u' :: a :: b :: c :: d :: rest) (Char.ofNat n) rest
  | halves {a b c d a' b' c' d' : Char} {high low : Nat} {rest : List Char}
      (hstrict : strict = true) (hhigh : hexQuad [a, b, c, d] = .ok high)
      (hfirst : 0xd800 ≤ high ∧ high < 0xdc00) (hlow : hexQuad [a', b', c', d'] = .ok low)
      (hsecond : 0xdc00 ≤ low ∧ low ≤ 0xdfff) :
      Letter strict
        ('\\' :: 'u' :: a :: b :: c :: d :: '\\' :: 'u' :: a' :: b' :: c' :: d' :: rest)
        (Char.ofNat (0x10000 + (high - 0xd800) * 0x400 + (low - 0xdc00))) rest

inductive Body (strict : Bool) : Form (List Char)
  | close {rest : List Char} : Body strict ('"' :: rest) [] rest
  | next {c : Char} {cs input mid rest : List Char} (hletter : Letter strict input c mid)
      (hbody : Body strict mid cs rest) : Body strict input (c :: cs) rest

def Quoted (strict : Bool) : Form String :=
  fun input s rest => ∃ mid, Blanks input ('"' :: mid) ∧ Body strict mid s.toList rest

theorem hexQuad_eq_ok (h : hexQuad input = .ok n) :
    ∃ a b c d rest, input = a :: b :: c :: d :: rest ∧ hexQuad [a, b, c, d] = .ok n := by
  unfold hexQuad at h
  split at h
  · rename_i a b c d rest
    exact ⟨a, b, c, d, rest, rfl, h⟩
  · split at h <;> cases h

theorem hexQuad_cons (a b c d : Char) (rest : List Char) :
    hexQuad (a :: b :: c :: d :: rest) = hexQuad [a, b, c, d] :=
  rfl

theorem lowSurrogate_eq_ok (h : lowSurrogate input = .ok n) :
    ∃ a b c d rest, input = '\\' :: 'u' :: a :: b :: c :: d :: rest ∧
      hexQuad [a, b, c, d] = .ok n ∧ 0xdc00 ≤ n ∧ n ≤ 0xdfff := by
  unfold lowSurrogate at h
  split at h
  · cases h
  · cases h
  · rename_i rest
    split at h
    · rename_i m hquad
      split at h
      · rename_i hbounds
        cases h
        rcases hexQuad_eq_ok hquad with ⟨a, b, c, d, tail, rfl, hn⟩
        exact ⟨a, b, c, d, tail, rfl, hn, hbounds⟩
      · cases h
    · cases h
  · cases h

theorem isAlone_iff :
    (!strict || decide (n < 0xd800) || decide (0xdfff < n)) = true ↔
      (strict = true → n < 0xd800 ∨ 0xdfff < n) := by
  cases strict <;> simp

theorem letter_of_unicodeEscape (h : unicodeEscape strict input = .ok (c, n)) :
    Letter strict ('\\' :: 'u' :: input) c (input.drop n) := by
  unfold unicodeEscape at h
  split at h
  · cases h
  · rename_i high hquad
    rcases hexQuad_eq_ok hquad with ⟨a, b, c', d, rest, rfl, hhigh⟩
    split_ifs at h with hwhole hlow
    · simp only [Except.ok.injEq, Prod.mk.injEq] at h
      rcases h with ⟨rfl, rfl⟩
      exact .code hhigh (isAlone_iff.mp hwhole)
    · split at h
      · rename_i low hsurrogate
        simp only [Except.ok.injEq, Prod.mk.injEq] at h
        rcases h with ⟨rfl, rfl⟩
        rcases lowSurrogate_eq_ok hsurrogate with ⟨a', b', c'', d', tail, hrest, hlow, hbounds⟩
        have hrest : rest = '\\' :: 'u' :: a' :: b' :: c'' :: d' :: tail := hrest
        subst hrest
        rw [isAlone_iff, Classical.not_imp] at hwhole
        exact .halves hwhole.1 hhigh (by omega) hlow hbounds
      · cases h

theorem letter_of_escaped (h : escaped strict input = .ok (c, n)) :
    Letter strict ('\\' :: input) c (input.drop n) := by
  unfold escaped at h
  split at h
  case h_10 rest =>
    split at h
    · rename_i c' m hescape
      cases h
      exact letter_of_unicodeEscape hescape
    · cases h
  all_goals cases h
  all_goals exact .short (by decide)

theorem letter_of_character {first : Char} (hquote : first ≠ '"')
    (h : character strict first rest = .ok (c, n)) :
    Letter strict (first :: rest) c (rest.drop n) := by
  unfold character at h
  split_ifs at h with hslash hcontrol
  · rw [hslash]
    exact letter_of_escaped h
  · cases h
    exact .plain hquote hslash (Nat.le_of_not_lt hcontrol)

theorem character_of_letter (h : Letter strict input c mid) :
    ∃ first rest n, input = first :: rest ∧ first ≠ '"' ∧
      character strict first rest = .ok (c, n) ∧ rest.drop n = mid := by
  cases h with
  | plain hquote hslash hcontrol =>
    refine ⟨_, _, 0, rfl, hquote, ?_, rfl⟩
    rw [character, if_neg hslash, if_neg (Nat.not_lt.mpr hcontrol)]
  | short hletter =>
    refine ⟨_, _, 1, rfl, by decide, ?_, rfl⟩
    rw [character, if_pos rfl]
    simp only [shortEscapes, List.mem_cons, Prod.mk.injEq, List.not_mem_nil, or_false] at hletter
    rcases hletter with h | h | h | h | h | h | h | h <;> rcases h with ⟨rfl, rfl⟩ <;> rfl
  | code hn hwhole =>
    refine ⟨_, _, 5, rfl, by decide, ?_, rfl⟩
    rw [character, if_pos rfl, escaped, unicodeEscape, hexQuad_cons, hn]
    simp only [isAlone_iff.mpr hwhole, if_true]
  | @halves _ _ _ _ _ _ _ _ high low _ hstrict hhigh hfirst hlow hsecond =>
    refine ⟨_, _, 11, rfl, by decide, ?_, rfl⟩
    have halone : ¬ (!strict || decide (high < 0xd800) || decide (0xdfff < high)) = true := by
      rw [isAlone_iff]
      intro h
      rcases h hstrict with h | h <;> omega
    rw [character, if_pos rfl, escaped, unicodeEscape, hexQuad_cons, hhigh]
    simp only [halone, Bool.false_eq_true, if_false, if_neg (Nat.not_le.mpr hfirst.2),
      List.drop_succ_cons, List.drop_zero, lowSurrogate, hexQuad_cons, hlow, if_pos hsecond]

theorem Letter.length_lt (h : Letter strict input c mid) : mid.length < input.length := by
  rcases character_of_letter h with ⟨first, rest, n, rfl, _, _, rfl⟩
  rw [List.length_cons, List.length_drop]
  omega

theorem Body.length_lt {input cs rest : List Char} (h : Body strict input cs rest) :
    rest.length < input.length := by
  induction h with
  | close => exact Nat.lt_succ_self _
  | next hletter _ ih => exact Nat.lt_trans ih hletter.length_lt

theorem body_of_textFrom {done input rest : List Char}
    (h : textFrom strict done input = .ok (s, rest)) :
    ∃ cs, Body strict input cs rest ∧ s = String.ofList (done.reverse ++ cs) := by
  fun_induction textFrom strict done input with
  | case1 => cases h
  | case2 done rest =>
    cases h
    exact ⟨[], .close, by rw [List.append_nil]⟩
  | case3 done first tail hquote c n hchar ih =>
    rcases ih h with ⟨cs, hbody, hs⟩
    exact ⟨c :: cs, .next (letter_of_character hquote hchar) hbody, by rw [hs]; simp⟩
  | case4 => cases h

theorem Body.textFrom_eq {input cs rest : List Char} (h : Body strict input cs rest)
    (done : List Char) :
    textFrom strict done input = .ok (String.ofList (done.reverse ++ cs), rest) := by
  induction h generalizing done with
  | close => rw [textFrom, if_pos rfl, List.append_nil]
  | next hletter _ ih =>
    rcases character_of_letter hletter with ⟨first, tail, n, rfl, hquote, hchar, rfl⟩
    rw [textFrom, if_neg hquote, hchar]
    simp only [ih]
    simp

theorem text_eq_ok_iff : text strict input = .ok (s, rest) ↔ Body strict input s.toList rest := by
  unfold text
  rw [bind_of_ok (get_apply input)]
  constructor
  · intro h
    cases hfrom : textFrom strict [] input with
    | error fault =>
      rw [hfrom] at h
      cases h
    | ok p =>
      rcases p with ⟨s', rest'⟩
      rw [hfrom] at h
      cases h
      rcases body_of_textFrom hfrom with ⟨cs, hbody, rfl⟩
      simpa using hbody
  · intro h
    rw [h.textFrom_eq [], List.reverse_nil, List.nil_append, String.ofList_toList]
    rfl

/-!
# Exact readers

A reader is exact for a form if it gives what is written in this form at the front
of a text, and nothing else.
-/

variable {α β : Type} {x : Reader α} {f : α → Reader β}

theorem bind_eq_ok_iff {b : β} :
    (x >>= f) input = .ok (b, rest) ↔
      ∃ a mid, x input = .ok (a, mid) ∧ f a mid = .ok (b, rest) := by
  cases hx : x input with
  | error fault =>
    rw [bind_of_error hx]
    simp
  | ok p =>
    rcases p with ⟨a, mid⟩
    rw [bind_of_ok hx]
    simp

theorem bind_congr_input (h : x input = x mid) : (x >>= f) input = (x >>= f) mid := by
  change StateT.bind x f input = StateT.bind x f mid
  rw [StateT.bind, StateT.bind, h]

theorem bind_ne_ok (hf : ∀ a mid p, f a mid ≠ .ok p)
    (input : List Char) (p : β × List Char) : (x >>= f) input ≠ .ok p := by
  intro h
  rcases bind_eq_ok_iff.mp h with ⟨a, mid, _, hmid⟩
  exact hf a mid p hmid

theorem throw_ne_ok (fault : Fault) (input : List Char) (p : α × List Char) :
    (throw fault : Reader α) input ≠ .ok p := by
  intro h
  cases h

theorem unexpected_ne_ok (input : List Char) (p : α × List Char) :
    (unexpected : Reader α) input ≠ .ok p := by
  unfold unexpected
  rw [bind_of_ok (get_apply input)]
  split <;> exact throw_ne_ok _ _ _

theorem peek_bind (f : Option Char → Reader β) (input : List Char) :
    (peek? >>= f) input = f (input.dropWhile isBlank).head? (input.dropWhile isBlank) :=
  rfl

theorem mismatch_ne_ok (input : List Char) (p : α × List Char) :
    (mismatch : Reader α) input ≠ .ok p := by
  unfold mismatch
  rw [peek_bind]
  generalize (input.dropWhile isBlank).head? = next
  split
  · exact throw_ne_ok _ _ _
  · exact throw_ne_ok _ _ _
  · exact bind_ne_ok (fun _ => bind_ne_ok (fun _ => throw_ne_ok _)) _ _
  · exact bind_ne_ok (fun _ => bind_ne_ok (fun _ => throw_ne_ok _)) _ _
  · split <;> exact bind_ne_ok (fun _ => throw_ne_ok _) _ _
  · exact unexpected_ne_ok _ _

theorem opening_eq_ok_iff {f : Option Char → Reader α} {k : Reader α} {a : α}
    (hc : isBlank c = false) (hopen : ∀ mid, f (some c) (c :: mid) = k mid)
    (hother : ∀ next, next ≠ some c → ∀ input p, f next input ≠ .ok p) :
    (peek? >>= f) input = .ok (a, rest) ↔
      ∃ mid, Blanks input (c :: mid) ∧ k mid = .ok (a, rest) := by
  simp only [blanks_cons_iff hc]
  rw [peek_bind]
  constructor
  · intro h
    by_cases hnext : (input.dropWhile isBlank).head? = some c
    · obtain ⟨mid, hdrop⟩ := List.head?_eq_some_iff.mp hnext
      rw [hdrop, List.head?_cons, hopen] at h
      exact ⟨mid, hdrop, h⟩
    · exact absurd h (hother _ hnext _ _)
  · rintro ⟨mid, hdrop, h⟩
    rw [hdrop, List.head?_cons, hopen]
    exact h

theorem expect_eq_ok_iff (hc : isBlank c = false) :
    expect c input = .ok ((), rest) ↔ Blanks input (c :: rest) := by
  unfold expect
  rw [opening_eq_ok_iff hc (k := pure ()) (fun _ => by rw [if_pos rfl]; rfl)]
  · constructor
    · rintro ⟨mid, hmid, h⟩
      cases h
      exact hmid
    · exact fun h => ⟨rest, h, rfl⟩
  · intro next hnext
    rw [if_neg hnext]
    exact unexpected_ne_ok

/-- A reader gives exactly what is written at the front of the text. -/
def Exact (reader : Reader α) (form : Form α) : Prop :=
  ∀ input a rest, reader input = .ok (a, rest) ↔ form input a rest

/-- A reader of values: it does not care for blanks, it reads something, and
what it reads does not close a list. -/
structure ReadsValue (reader : Reader α) : Prop where
  blanks : ∀ input, reader (input.dropWhile isBlank) = reader input
  starts : ∀ {input p}, reader input = .ok p → ∃ c mid, input.dropWhile isBlank = c :: mid ∧ c ≠ ']'
  shrinks : ∀ {input a rest}, reader input = .ok (a, rest) → rest.length < input.length

theorem peek_bind_dropWhile (f : Option Char → Reader β) (input : List Char) :
    (peek? >>= f) (input.dropWhile isBlank) = (peek? >>= f) input := by
  rw [peek_bind, peek_bind, ← (blanks_dropWhile input).dropWhile_eq]

theorem string_exact : Exact Reader.string (Quoted true) := by
  intro input s rest
  unfold Reader.string
  rw [opening_eq_ok_iff (c := '"') (k := text true) (by decide) (fun _ => rfl)]
  · simp only [text_eq_ok_iff]
    rfl
  · intro next hnext
    split
    · exact absurd rfl hnext
    · exact mismatch_ne_ok

theorem Quoted.length_lt (h : Quoted strict input s rest) : rest.length < input.length := by
  rcases h with ⟨mid, hmid, hbody⟩
  have hlength := hmid.length_le
  have hshorter := hbody.length_lt
  rw [List.length_cons] at hlength
  omega

theorem string_readsValue : ReadsValue Reader.string where
  blanks := peek_bind_dropWhile _
  starts := by
    intro input p h
    rcases (string_exact input p.1 p.2).mp h with ⟨mid, hmid, _⟩
    exact ⟨'"', mid, (blanks_cons_iff (by decide)).mp hmid, by decide⟩
  shrinks := fun h => ((string_exact _ _ _).mp h).length_lt

/-!
# Numbers

A number has digits, and may have a fraction and an exponent.
-/

def DigitRun : Form (List Char) :=
  fun input ds rest =>
    input = ds ++ rest ∧ (∀ c ∈ ds, c.isDigit = true) ∧ ∀ c ∈ rest.head?, c.isDigit = false

def Whole : Form (List Char) :=
  fun input ds rest => DigitRun input ds rest ∧ ds ≠ [] ∧ (ds.head? = some '0' → ds = ['0'])

inductive Fraction : List Char → List Char → Prop
  | none {input : List Char} (hnext : ∀ c ∈ input.head?, c ≠ '.') : Fraction input input
  | digits {input ds rest : List Char} (hds : DigitRun input ds rest) (hne : ds ≠ []) :
      Fraction ('.' :: input) rest

inductive Power : List Char → List Char → Prop
  | none {input : List Char} (hnext : ∀ c ∈ input.head?, c ≠ 'e' ∧ c ≠ 'E') : Power input input
  | digits {mark : Char} {input mid ds rest : List Char} (hmark : mark = 'e' ∨ mark = 'E')
      (hsign : input = '+' :: mid ∨ input = '-' :: mid ∨ input = mid)
      (hds : DigitRun mid ds rest) (hne : ds ≠ []) : Power (mark :: input) rest

def Number (input rest : List Char) : Prop :=
  ∃ ds a b, Whole input ds a ∧ Fraction a b ∧ Power b rest

def Natural (bound : Nat) : Form Nat :=
  fun input n rest => n < bound ∧ Blanks input ((Text.decimal n).toList ++ rest) ∧ EndsNumber rest

theorem digits_exact : Exact digits DigitRun := by
  intro input ds rest
  constructor
  · intro h
    have hsplit : input = input.takeWhile Char.isDigit ++ input.dropWhile Char.isDigit :=
      List.takeWhile_append_dropWhile.symm
    have hrest : input.drop (input.takeWhile Char.isDigit).length =
        input.dropWhile Char.isDigit := by
      calc input.drop (input.takeWhile Char.isDigit).length
          = (input.takeWhile Char.isDigit ++ input.dropWhile Char.isDigit).drop
              (input.takeWhile Char.isDigit).length := by rw [← hsplit]
        _ = input.dropWhile Char.isDigit := List.drop_left
    cases h
    change DigitRun input _ (input.drop (input.takeWhile Char.isDigit).length)
    rw [hrest]
    refine ⟨hsplit, List.all_eq_true.mp List.all_takeWhile, ?_⟩
    intro c hc
    have hstop := List.head?_dropWhile_not Char.isDigit input
    rw [Option.mem_def.mp hc] at hstop
    simpa using hstop
  · rintro ⟨rfl, hds, hrest⟩
    exact digits_append hds hrest

theorem eatEither_eq_ok_iff {a b : Char} {found : Bool} :
    eatEither a b input = .ok (found, rest) ↔
      (found = true ∧ (input = a :: rest ∨ input = b :: rest)) ∨
      (found = false ∧ input = rest ∧ ∀ c ∈ input.head?, c ≠ a ∧ c ≠ b) := by
  by_cases hnext : input.head? = some a ∨ input.head? = some b
  · have hmark : ∃ c tail, input = c :: tail ∧ (c = a ∨ c = b) := by
      rcases hnext with h | h
      · rcases List.head?_eq_some_iff.mp h with ⟨tail, h⟩
        exact ⟨a, tail, h, .inl rfl⟩
      · rcases List.head?_eq_some_iff.mp h with ⟨tail, h⟩
        exact ⟨b, tail, h, .inr rfl⟩
    rcases hmark with ⟨c, tail, rfl, hc⟩
    unfold eatEither
    rw [bind_of_ok (get_apply _)]
    simp only [hnext, if_true]
    rw [bind_of_ok (advance_cons c tail)]
    constructor
    · intro h
      cases h
      refine .inl ⟨rfl, ?_⟩
      rcases hc with rfl | rfl
      · exact .inl rfl
      · exact .inr rfl
    · rintro (⟨rfl, h | h⟩ | ⟨_, _, h⟩)
      · cases h
        rfl
      · cases h
        rfl
      · rcases hc with rfl | rfl
        · exact absurd rfl (h c rfl).1
        · exact absurd rfl (h c rfl).2
  · have hne : ∀ c ∈ input.head?, c ≠ a ∧ c ≠ b := by
      intro c hc
      constructor
      · rintro rfl
        exact hnext (.inl hc)
      · rintro rfl
        exact hnext (.inr hc)
    rw [eatEither_of_ne hne]
    constructor
    · intro h
      cases h
      exact .inr ⟨rfl, rfl, hne⟩
    · rintro (⟨_, rfl | rfl⟩ | ⟨rfl, rfl, _⟩)
      · exact absurd (.inl rfl) hnext
      · exact absurd (.inr rfl) hnext
      · rfl

theorem isDigit_of_digitRun {input ds tail rest : List Char} (h : DigitRun input ds rest)
    (hne : ds ≠ []) (hinput : input = c :: tail) : c.isDigit = true := by
  rcases h with ⟨rfl, hds, _⟩
  cases ds with
  | nil => exact absurd rfl hne
  | cons first ds =>
    cases hinput
    exact hds c List.mem_cons_self

theorem skipPower_eq_ok_iff : skipPower input = .ok ((), rest) ↔ Power input rest := by
  unfold skipPower
  rw [bind_eq_ok_iff]
  constructor
  · rintro ⟨found, mid, hfound, h⟩
    rcases eatEither_eq_ok_iff.mp hfound with ⟨rfl, hmark⟩ | ⟨rfl, rfl, hne⟩
    · rw [if_pos rfl] at h
      rcases bind_eq_ok_iff.mp h with ⟨sign, next, hsign, h⟩
      rcases bind_eq_ok_iff.mp h with ⟨ds, last, hds, h⟩
      split at h
      · exact absurd h (throw_ne_ok _ _ _)
      · rename_i hempty
        cases h
        have hne : ds ≠ [] := by
          rintro rfl
          exact hempty rfl
        have hsign : mid = '+' :: next ∨ mid = '-' :: next ∨ mid = next := by
          rcases eatEither_eq_ok_iff.mp hsign with ⟨_, h | h⟩ | ⟨_, h, _⟩
          · exact .inl h
          · exact .inr (.inl h)
          · exact .inr (.inr h)
        rcases hmark with rfl | rfl
        · exact .digits (.inl rfl) hsign ((digits_exact _ _ _).mp hds) hne
        · exact .digits (.inr rfl) hsign ((digits_exact _ _ _).mp hds) hne
    · cases h
      exact .none hne
  · intro h
    cases h with
    | none hnext => exact ⟨false, input, eatEither_of_ne hnext, rfl⟩
    | @digits mark tail mid ds _ hmark hsign hds hne =>
      have hfound : eatEither 'e' 'E' (mark :: tail) = .ok (true, tail) := by
        refine eatEither_eq_ok_iff.mpr (.inl ⟨rfl, ?_⟩)
        rcases hmark with rfl | rfl
        · exact .inl rfl
        · exact .inr rfl
      have hsign : ∃ found, eatEither '+' '-' tail = .ok (found, mid) := by
        rcases hsign with rfl | rfl | rfl
        · exact ⟨true, eatEither_eq_ok_iff.mpr (.inl ⟨rfl, .inl rfl⟩)⟩
        · exact ⟨true, eatEither_eq_ok_iff.mpr (.inl ⟨rfl, .inr rfl⟩)⟩
        · refine ⟨false, eatEither_of_ne ?_⟩
          intro c hc
          rcases List.head?_eq_some_iff.mp hc with ⟨cs, hcs⟩
          have hdigit := isDigit_of_digitRun hds hne hcs
          constructor <;> rintro rfl <;> exact absurd hdigit (by decide)
      rcases hsign with ⟨found, hsign⟩
      refine ⟨true, tail, hfound, ?_⟩
      rw [if_pos rfl, bind_of_ok hsign, bind_of_ok ((digits_exact _ _ _).mpr hds),
        if_neg (by simpa using hne)]
      rfl

theorem skipFraction_eq_ok_iff : skipFraction input = .ok ((), rest) ↔ Fraction input rest := by
  unfold skipFraction
  rw [bind_eq_ok_iff]
  constructor
  · rintro ⟨found, mid, hfound, h⟩
    rcases eatEither_eq_ok_iff.mp hfound with ⟨rfl, hmark⟩ | ⟨rfl, rfl, hne⟩
    · rw [if_pos rfl] at h
      rcases bind_eq_ok_iff.mp h with ⟨ds, last, hds, h⟩
      split at h
      · exact absurd h (throw_ne_ok _ _ _)
      · rename_i hempty
        cases h
        rw [or_self] at hmark
        rw [hmark]
        refine .digits ((digits_exact _ _ _).mp hds) ?_
        rintro rfl
        exact hempty rfl
    · cases h
      exact .none (fun c hc => (hne c hc).1)
  · intro h
    cases h with
    | none hnext =>
      exact ⟨false, input, eatEither_of_ne (fun c hc => ⟨hnext c hc, hnext c hc⟩), rfl⟩
    | @digits tail ds _ hds hne =>
      refine ⟨true, tail, eatEither_eq_ok_iff.mpr (.inl ⟨rfl, .inl rfl⟩), ?_⟩
      rw [if_pos rfl, bind_of_ok ((digits_exact _ _ _).mpr hds), if_neg (by simpa using hne)]
      rfl

/-- Digits with a needless zero in front, or none at all, are told apart from a
whole number by their first two. -/
theorem whole_cases (ds : List Char) :
    (ds ≠ [] ∧ (ds.head? = some '0' → ds = ['0'])) ∨ ds = [] ∨ ∃ c cs, ds = '0' :: c :: cs := by
  cases ds with
  | nil => exact .inr (.inl rfl)
  | cons c cs =>
    cases cs with
    | nil =>
      refine .inl ⟨List.cons_ne_nil c [], ?_⟩
      intro h
      rw [Option.some.inj h]
    | cons d cs =>
      by_cases hc : c = '0'
      · exact .inr (.inr ⟨d, cs, by rw [hc]⟩)
      · exact .inl ⟨List.cons_ne_nil _ _, fun h => absurd (Option.some.inj h) hc⟩

theorem skipNumber_eq_ok_iff : skipNumber input = .ok ((), rest) ↔ Number input rest := by
  unfold skipNumber
  rw [bind_eq_ok_iff]
  constructor
  · rintro ⟨ds, a, hds, h⟩
    rcases whole_cases ds with hwhole | rfl | ⟨c, cs, rfl⟩
    · split at h
      · exact absurd rfl hwhole.1
      · cases hwhole.2 rfl
      · rcases bind_eq_ok_iff.mp h with ⟨_, b, hfraction, hpower⟩
        exact ⟨ds, a, b, ⟨(digits_exact _ _ _).mp hds, hwhole⟩,
          skipFraction_eq_ok_iff.mp hfraction, skipPower_eq_ok_iff.mp hpower⟩
    · cases h
    · cases h
  · rintro ⟨ds, a, b, ⟨hds, hwhole⟩, hfraction, hpower⟩
    refine ⟨ds, a, (digits_exact _ _ _).mpr hds, ?_⟩
    split
    · exact absurd rfl hwhole.1
    · cases hwhole.2 rfl
    · rw [bind_of_ok (skipFraction_eq_ok_iff.mpr hfraction)]
      exact skipPower_eq_ok_iff.mpr hpower

theorem Number.length_lt (h : Number input rest) : rest.length < input.length := by
  rcases h with ⟨ds, a, b, ⟨⟨rfl, _, _⟩, hne, _⟩, hfraction, hpower⟩
  have hds : 0 < ds.length := List.length_pos_iff.mpr hne
  have hb : b.length ≤ a.length := by
    cases hfraction with
    | none => exact Nat.le_refl _
    | digits hds _ =>
      rcases hds with ⟨rfl, _, _⟩
      simp only [List.length_cons, List.length_append]
      omega
  have hrest : rest.length ≤ b.length := by
    cases hpower with
    | none => exact Nat.le_refl _
    | digits _ hsign hds _ =>
      rcases hds with ⟨rfl, _, _⟩
      rcases hsign with rfl | rfl | rfl <;> simp only [List.length_cons, List.length_append] <;>
        omega
  rw [List.length_append]
  omega

theorem wholePart_exact : Exact wholePart Whole := by
  intro input ds rest
  unfold wholePart
  rw [bind_eq_ok_iff]
  constructor
  · rintro ⟨found, mid, hfound, h⟩
    rcases whole_cases found with hwhole | rfl | ⟨c, cs, rfl⟩
    · split at h
      · exact absurd rfl hwhole.1
      · cases hwhole.2 rfl
      · cases h
        exact ⟨(digits_exact _ _ _).mp hfound, hwhole⟩
    · exact absurd h (unexpected_ne_ok _ _)
    · cases h
  · rintro ⟨hds, hwhole⟩
    refine ⟨ds, rest, (digits_exact _ _ _).mpr hds, ?_⟩
    split
    · exact absurd rfl hwhole.1
    · cases hwhole.2 rfl
    · rfl

theorem digitChar_of_isDigit (h : c.isDigit = true) :
    c.toNat - '0'.toNat < 10 ∧ Nat.digitChar (c.toNat - '0'.toNat) = c := by
  have hbounds : '0'.toNat ≤ c.toNat ∧ c.toNat ≤ '9'.toNat := Char.isDigit_iff_toNat.mp h
  have hzero : '0'.toNat = 48 := rfl
  have hnine : '9'.toNat = 57 := rfl
  have hdigits : ∀ d < 10, Nat.digitChar d = Char.ofNat (d + 48) := by decide
  refine ⟨by omega, ?_⟩
  rw [hdigits _ (by omega), hzero, Nat.sub_add_cancel (by omega), Char.ofNat_toNat]

theorem toDigits_ofDigitChars (hn : 0 < n) (hds : ∀ c ∈ ds, c.isDigit = true) :
    Nat.toDigits 10 (Nat.ofDigitChars 10 ds n) = Nat.toDigits 10 n ++ ds := by
  induction ds generalizing n with
  | nil => rw [Nat.ofDigitChars_nil, List.append_nil]
  | cons c ds ih =>
    rcases digitChar_of_isDigit (hds c List.mem_cons_self) with ⟨hlt, hchar⟩
    rw [Nat.ofDigitChars_cons, ih (by omega) (fun d hd => hds d (List.mem_cons_of_mem c hd)),
      ← Nat.toDigits_append_toDigits (by decide) hn hlt, Nat.toDigits_of_lt_base hlt, hchar,
      List.append_assoc, List.singleton_append]

theorem Whole.eq_toDigits (h : Whole input ds rest) :
    ds = Nat.toDigits 10 (Nat.ofDigitChars 10 ds 0) := by
  rcases h with ⟨⟨_, hds, _⟩, hne, hzero⟩
  cases ds with
  | nil => exact absurd rfl hne
  | cons c cs =>
    by_cases hc : c = '0'
    · have hcs : c :: cs = ['0'] := hzero (by rw [hc]; rfl)
      rw [hcs]
      rfl
    · rcases digitChar_of_isDigit (hds c List.mem_cons_self) with ⟨hlt, hchar⟩
      have hpos : 0 < 10 * 0 + (c.toNat - '0'.toNat) := by
        refine Nat.pos_of_ne_zero ?_
        intro hzero
        rw [Nat.mul_zero, Nat.zero_add] at hzero
        rw [hzero] at hchar
        exact hc hchar.symm
      rw [Nat.ofDigitChars_cons,
        toDigits_ofDigitChars hpos (fun d hd => hds d (List.mem_cons_of_mem c hd)),
        Nat.mul_zero, Nat.zero_add, Nat.toDigits_of_lt_base hlt, hchar, List.singleton_append]

theorem withPower_cases {whole : Significand} {hasPoint : Bool} {fraction input rest : List Char}
    {m : Numeral} (h : withPower whole hasPoint fraction input = .ok (m, rest)) :
    ∃ hasExponent mid, eatEither 'e' 'E' input = .ok (hasExponent, mid) ∧
      (hasExponent = false → mid = rest) ∧
      m.isWhole = (!hasPoint && !hasExponent && whole.exponent == 0) ∧
      m.value.digits = (whole.pushFraction fraction).digits := by
  unfold withPower at h
  rcases bind_eq_ok_iff.mp h with ⟨hasExponent, mid, hmark, h⟩
  have hpower : ∃ power next, (hasExponent = false → mid = next) ∧
      (if ((whole.pushFraction fraction).scale power).tooLarge = true then
          throw .malformed >>= fun _ : Unit =>
            pure ⟨(whole.pushFraction fraction).scale power,
              !hasPoint && !hasExponent && whole.exponent == 0⟩
        else pure ⟨(whole.pushFraction fraction).scale power,
          !hasPoint && !hasExponent && whole.exponent == 0⟩ : Reader Numeral) next =
        .ok (m, rest) := by
    cases hasExponent with
    | true =>
      rcases bind_eq_ok_iff.mp h with ⟨power, next, _, h⟩
      refine ⟨power, next, fun h => (nomatch h), h⟩
    | false =>
      rcases bind_eq_ok_iff.mp h with ⟨power, next, hzero, h⟩
      cases hzero
      exact ⟨0, mid, fun _ => rfl, h⟩
  rcases hpower with ⟨power, next, hnext, h⟩
  split at h
  · cases h
  · cases h
    exact ⟨hasExponent, mid, hmark, hnext, rfl, rfl⟩

theorem number_cases {m : Numeral} (h : Reader.number input = .ok (m, rest))
    (hwhole : m.isWhole = true) :
    ∃ ds, Whole input ds rest ∧ EndsNumber rest ∧ m.value.digits = Nat.ofDigitChars 10 ds 0 := by
  unfold Reader.number at h
  rcases bind_eq_ok_iff.mp h with ⟨ds, a, hds, h⟩
  rcases bind_eq_ok_iff.mp h with ⟨hasPoint, b, hpoint, h⟩
  cases hasPoint with
  | true =>
    rcases bind_eq_ok_iff.mp h with ⟨fraction, c, _, h⟩
    dsimp only at h
    split at h
    · rcases bind_eq_ok_iff.mp h with ⟨_, _, hfault, _⟩
      exact absurd hfault (unexpected_ne_ok _ _)
    · rcases withPower_cases h with ⟨hasExponent, mid, _, _, hm, _⟩
      rw [hm] at hwhole
      cases hwhole
  | false =>
    rcases bind_eq_ok_iff.mp h with ⟨fraction, c, hnone, h⟩
    cases hnone
    rcases withPower_cases h with ⟨hasExponent, mid, hmark, hmid, hm, hvalue⟩
    rw [hm] at hwhole
    cases hasExponent with
    | true => cases hwhole
    | false =>
      rcases hmid rfl
      rcases eatEither_eq_ok_iff.mp hpoint with ⟨hfound, _⟩ | ⟨_, rfl, hnoPoint⟩
      · cases hfound
      rcases eatEither_eq_ok_iff.mp hmark with ⟨hfound, _⟩ | ⟨_, rfl, hnoPower⟩
      · cases hfound
      have hdigits := (wholePart_exact _ _ _).mp hds
      refine ⟨ds, hdigits, ?_, ?_⟩
      · intro c hc
        exact ⟨hdigits.1.2.2 c hc, (hnoPoint c hc).1, hnoPower c hc⟩
      · have hexponent : (ds.foldl Significand.pushWhole ⟨0, 0⟩).exponent = 0 := by
          simpa using hwhole
        have hfits : Nat.ofDigitChars 10 ds 0 < wordBound := by
          refine Nat.lt_of_not_le ?_
          intro hle
          have hpos := Significand.pushWhole_of_le (by decide) hle
          omega
        rw [hvalue, Significand.pushFraction, Significand.pushWhole_of_lt hfits]

theorem head_toDigits_ne_zero (n : Nat) (h : 0 < n) : (Nat.toDigits 10 n).head? ≠ some '0' := by
  induction n using Nat.strongRecOn with
  | ind n ih =>
    rw [Nat.toDigits_eq_if (by decide)]
    split
    · simpa using Nat.ne_of_gt h
    · have hsmaller := ih (n / 10) (by omega) (by omega)
      rw [List.head?_append_of_ne_nil _ Nat.toDigits_ne_nil]
      exact hsmaller

theorem whole_toDigits (n : Nat) (hrest : EndsNumber rest) :
    Whole (Nat.toDigits 10 n ++ rest) (Nat.toDigits 10 n) rest := by
  refine ⟨⟨rfl, fun c hc => ?_, fun c hc => (hrest c hc).1⟩, Nat.toDigits_ne_nil, fun hzero => ?_⟩
  · exact Nat.isDigit_of_mem_toDigits (by decide) (by decide) hc
  · rcases Nat.eq_zero_or_pos n with rfl | hpos
    · exact Nat.toDigits_zero 10
    · exact absurd hzero (head_toDigits_ne_zero n hpos)

theorem number_toDigits (hn : n < wordBound) (hrest : EndsNumber rest) :
    Reader.number (Nat.toDigits 10 n ++ rest) = .ok (⟨⟨n, 0⟩, true⟩, rest) := by
  have hdigits : Nat.ofDigitChars 10 (Nat.toDigits 10 n) 0 = n := Nat.ofDigitChars_ten_toDigits
  have hwhole : (Nat.toDigits 10 n).foldl Significand.pushWhole ⟨0, 0⟩ = ⟨n, 0⟩ := by
    rw [Significand.pushWhole_of_lt (by rw [hdigits]; exact hn), hdigits]
  have hpoint : ∀ c ∈ rest.head?, c ≠ '.' ∧ c ≠ '.' :=
    fun c hc => ⟨(hrest c hc).2.1, (hrest c hc).2.1⟩
  unfold Reader.number
  rw [bind_of_ok ((wholePart_exact _ _ _).mpr (whole_toDigits n hrest)),
    bind_of_ok (eatEither_of_ne hpoint)]
  simp only [Bool.false_eq_true, if_false, pure_bind, Bool.false_and, hwhole]
  unfold withPower
  rw [bind_of_ok (eatEither_of_ne (fun c hc => (hrest c hc).2.2))]
  simp only [Bool.false_eq_true, if_false, pure_bind, Significand.pushFraction, Significand.scale,
    Int.add_zero, Significand.tooLarge_of_lt hn]
  rfl

theorem isBlank_of_isDigit (h : c.isDigit = true) : isBlank c = false := by
  rw [isBlank]
  simp only [Bool.or_eq_false_iff, beq_eq_false_iff_ne]
  refine ⟨⟨⟨?_, ?_⟩, ?_⟩, ?_⟩ <;> rintro rfl <;> exact absurd h (by decide)

theorem exists_digit (h : Blanks input ((Text.decimal n).toList ++ rest)) :
    ∃ c cs, c.isDigit = true ∧ Nat.toDigits 10 n ++ rest = c :: cs ∧
      input.dropWhile isBlank = c :: cs := by
  obtain ⟨c, cs, hdigits⟩ := List.exists_cons_of_ne_nil (Nat.toDigits_ne_nil (b := 10) (n := n))
  have hc : c.isDigit = true :=
    Nat.isDigit_of_mem_toDigits (by decide) (by decide) (hdigits ▸ List.mem_cons_self)
  rw [Text.decimal, String.toList_ofList, hdigits, List.cons_append] at h
  exact ⟨c, cs ++ rest, hc, by rw [hdigits, List.cons_append],
    (blanks_cons_iff (isBlank_of_isDigit hc)).mp h⟩

theorem natural_exact {bound : Nat} (hbound : bound ≤ wordBound) :
    Exact (natural bound) (Natural bound) := by
  intro input n rest
  constructor
  · intro h
    unfold natural at h
    rw [peek_bind] at h
    generalize hnext : (input.dropWhile isBlank).head? = next at h
    split at h
    · exact absurd h (bind_ne_ok (fun _ => bind_ne_ok (fun _ => throw_ne_ok _)) _ _)
    · split at h
      · rcases bind_eq_ok_iff.mp h with ⟨m, mid, hnumber, h⟩
        cases hwhole : m.isWhole with
        | false =>
          rw [Numeral.natural?, hwhole] at h
          cases h
        | true =>
          rw [Numeral.natural?, hwhole] at h
          rcases number_cases hnumber hwhole with ⟨ds, hds, hends, hvalue⟩
          by_cases hlt : m.value.digits < bound
          · simp only [if_true, if_pos hlt] at h
            cases h
            have hdecimal : (Text.decimal m.value.digits).toList ++ rest =
                input.dropWhile isBlank := by
              rw [Text.decimal, String.toList_ofList, hvalue, ← hds.eq_toDigits]
              exact hds.1.1.symm
            refine ⟨hlt, ?_, hends⟩
            rw [hdecimal]
            exact blanks_dropWhile input
          · simp only [if_true, if_neg hlt] at h
            cases h
      · exact absurd h (mismatch_ne_ok _ _)
    · exact absurd h (mismatch_ne_ok _ _)
  · rintro ⟨hlt, hblanks, hends⟩
    rcases exists_digit hblanks with ⟨c, cs, hc, hdigits, hdrop⟩
    have hminus : c ≠ '-' := by
      rintro rfl
      exact absurd hc (by decide)
    have hnumber := number_toDigits (Nat.lt_of_lt_of_le hlt hbound) hends
    rw [hdigits] at hnumber
    unfold natural
    rw [peek_bind, hdrop, List.head?_cons]
    simp only [hc]
    refine (bind_of_ok hnumber).trans ?_
    exact congrFun (if_pos hlt) rest

theorem natural_readsValue {bound : Nat} (hbound : bound ≤ wordBound) :
    ReadsValue (natural bound) where
  blanks := peek_bind_dropWhile _
  starts := by
    intro input p h
    rcases exists_digit ((natural_exact hbound input p.1 p.2).mp h).2.1 with ⟨c, cs, hc, _, hdrop⟩
    refine ⟨c, cs, hdrop, ?_⟩
    rintro rfl
    exact absurd hc (by decide)
  shrinks := by
    intro input n rest h
    rcases (natural_exact hbound input n rest).mp h with ⟨_, hblanks, _⟩
    have hlength := hblanks.length_le
    have hdigits : 0 < (Text.decimal n).toList.length := by
      rw [Text.decimal, String.toList_ofList]
      exact Nat.length_toDigits_pos
    rw [List.length_append] at hlength
    omega

end Form
end Json
end ScriptBundler
