import ScriptBundler.Token.Lexer

/-!
# The lexical grammar

The lexical grammar says which texts make one token, without saying how a text
is cut.  Cutting follows it greedily: what is cut from a text is the longest
lexeme that the text starts with, or its first character if it starts with none.
So it depends on nothing but the lexemes that the text starts with.
-/

namespace ScriptBundler
namespace Lexeme

inductive IsWord : List Char → Prop
  | mk {c : Char} {rest : List Char} : isWordStart c = true → (∀ d ∈ rest, isWordPart d = true) →
      IsWord (c :: rest)

def AreDigits (cs : List Char) : Prop :=
  ∀ c ∈ cs, c.isDigit = true

inductive IsFraction : List Char → Prop
  | missing : IsFraction []
  | point {digits : List Char} : AreDigits digits → IsFraction ('.' :: digits)

inductive IsExponent : List Char → Prop
  | missing : IsExponent []
  | unsigned {letter : Char} {digits : List Char} : letter = 'e' ∨ letter = 'E' → digits ≠ [] →
      AreDigits digits → IsExponent (letter :: digits)
  | signed {letter sign : Char} {digits : List Char} : letter = 'e' ∨ letter = 'E' →
      sign = '+' ∨ sign = '-' → digits ≠ [] → AreDigits digits →
      IsExponent (letter :: sign :: digits)

inductive IsNumber : List Char → Prop
  | decimal {whole fraction exponent : List Char} : AreDigits whole → IsFraction fraction →
      IsExponent exponent → whole ≠ [] ∨ 1 < fraction.length →
      IsNumber (whole ++ (fraction ++ exponent))
  | radix {letter : Char} {isDigit : Char → Bool} {digits : List Char} :
      radixDigit? letter = some isDigit → (∀ d ∈ digits, isDigit d = true) →
      IsNumber ('0' :: letter :: digits)

/-- The texts that make one token, by the kind of the token. -/
inductive IsLexeme : Token.Kind → List Char → Prop
  | identifier {cs : List Char} : IsWord cs → (∀ word : Keyword, word.text.toList ≠ cs) →
      IsLexeme .identifier cs
  | keyword (word : Keyword) : IsLexeme (.keyword word) word.text.toList
  | number {cs : List Char} : IsNumber cs → IsLexeme .number cs
  | stringQuote {c : Char} : c = '"' ∨ c = '\'' → IsLexeme .stringQuote [c]
  | templateQuote : IsLexeme .templateQuote ['\x60']
  | space {cs : List Char} : cs ≠ [] → (∀ c ∈ cs, isBlank c = true) → IsLexeme .space cs
  | newline {c : Char} : Text.isLineBreak c = true → IsLexeme .newline [c]
  | punct (mark : Punctuator) : IsLexeme (.punct mark) mark.chars

/-- The longest lexeme that a text starts with, or its first character if it
starts with none. -/
structure IsLongest (kind : Token.Kind) (text cs : List Char) : Prop where
  starts : text <+: cs
  lexeme : IsLexeme kind text ∨
    kind = .any ∧ text.length = 1 ∧ ∀ k p, p <+: cs → ¬ IsLexeme k p
  longest : ∀ k p, p <+: cs → IsLexeme k p → p.length ≤ text.length

variable {c letter d : Char} {cs rest rest' digits : List Char} {isDigit : Char → Bool}
  {mark : Punctuator} {k : Token.Kind}

section
variable {p : Char → Bool}

theorem run_le (p : Char → Bool) (cs : List Char) : run p cs ≤ cs.length :=
  (List.takeWhile_sublist p).length_le

theorem run_cons_of_pos (h : p c = true) : run p (c :: cs) = run p cs + 1 := by
  unfold run
  rw [List.takeWhile_cons_of_pos h, List.length_cons]

theorem run_cons_of_neg (h : p c = false) : run p (c :: cs) = 0 := by
  unfold run
  rw [List.takeWhile_cons_of_neg (by rw [h]; exact Bool.false_ne_true), List.length_nil]

theorem length_le_run {p : Char → Bool} {cs rest : List Char} (h : cs <+: rest)
    (hall : ∀ c ∈ cs, p c = true) : cs.length ≤ run p rest := by
  obtain ⟨more, rfl⟩ := h
  unfold run
  rw [List.takeWhile_append_of_pos hall, List.length_append]
  exact Nat.le_add_right _ _

theorem all_take_run (p : Char → Bool) (cs : List Char) : ∀ c ∈ cs.take (run p cs), p c = true := by
  have htake : cs.take (run p cs) = cs.takeWhile p :=
    (List.prefix_iff_eq_take.mp (List.takeWhile_prefix p)).symm
  rw [htake]
  exact fun c hc => List.all_eq_true.mp List.all_takeWhile c hc

theorem head?_of_length_lt_run {p : Char → Bool} {cs more rest : List Char}
    (h : cs ++ more <+: rest) (hlt : cs.length < run p rest) : ∀ d ∈ more.head?, p d = true := by
  intro d hd
  obtain ⟨tail, rfl⟩ := h
  obtain ⟨others, rfl⟩ : ∃ others, more = d :: others := by
    cases more with
    | nil => cases hd
    | cons first others => exact ⟨others, by rw [Option.some.inj hd]⟩
  refine all_take_run p (cs ++ d :: others ++ tail) d ?_
  rw [List.append_assoc, List.take_append, List.mem_append]
  refine .inr ?_
  obtain ⟨n, hn⟩ : ∃ n, run p (cs ++ (d :: others ++ tail)) - cs.length = n + 1 := by
    rw [List.append_assoc] at hlt
    exact ⟨_, (Nat.succ_pred_eq_of_pos (Nat.sub_pos_of_lt hlt)).symm⟩
  rw [hn, List.cons_append, List.take_succ_cons]
  exact List.mem_cons_self

end

/-!
# Numbers

A number is a radix with its digits, or digits with a fraction and an exponent.
-/

theorem exponentLength_le (cs : List Char) : exponentLength cs ≤ cs.length := by
  unfold exponentLength
  split
  · split
    · split
      · rename_i sign digits
        have hdigits := run_le Char.isDigit digits
        have hrest := run_le Char.isDigit (sign :: digits)
        simp only [List.length_cons] at hrest ⊢
        split
        · split <;> omega
        · split <;> omega
      · exact Nat.zero_le _
    · exact Nat.zero_le _
  · exact Nat.zero_le _

theorem fractionLength_le (cs : List Char) : fractionLength cs ≤ cs.length := by
  unfold fractionLength
  split
  · rename_i digits
    have hdigits := run_le Char.isDigit digits
    rw [List.length_cons]
    omega
  · exact Nat.zero_le _

theorem fractionLength_cons_of_ne (h : c ≠ '.') : fractionLength (c :: cs) = 0 := by
  unfold fractionLength
  split
  · rename_i heq
    exact absurd (List.cons.inj heq).1 h
  · rfl

theorem exponentLength_cons_of_ne (he : c ≠ 'e') (hE : c ≠ 'E') : exponentLength (c :: cs) = 0 := by
  unfold exponentLength
  simp [he, hE]

theorem decimalLength_le (cs : List Char) : decimalLength cs ≤ cs.length := by
  unfold decimalLength
  have hwhole := run_le Char.isDigit cs
  have hfraction := fractionLength_le (cs.drop (run Char.isDigit cs))
  have hexponent := exponentLength_le
    (cs.drop (run Char.isDigit cs + fractionLength (cs.drop (run Char.isDigit cs))))
  simp only [List.length_drop] at hfraction hexponent ⊢
  omega

/-! The two spellings of an exponent. -/

theorem exponentLength_signed {c sign : Char} (hc : (c == 'e' || c == 'E') = true)
    (hsign : (sign == '+' || sign == '-') = true) :
    exponentLength (c :: sign :: digits) =
      if run Char.isDigit digits = 0 then 0 else 2 + run Char.isDigit digits := by
  simp only [exponentLength, hc, hsign, if_true]

theorem exponentLength_unsigned {c first : Char} (hc : (c == 'e' || c == 'E') = true)
    (hsign : ¬ (first == '+' || first == '-') = true) :
    exponentLength (c :: first :: digits) =
      if run Char.isDigit (first :: digits) = 0 then 0
      else 1 + run Char.isDigit (first :: digits) := by
  simp only [exponentLength, hc, hsign, if_true, Bool.false_eq_true, if_false]

theorem numberTail_radix (h : radixDigit? letter = some isDigit) :
    numberTail '0' (letter :: digits) = 1 + run isDigit digits := by
  simp only [numberTail, h]

def IsDecimal (c : Char) (rest : List Char) : Prop :=
  c = '0' → ∀ letter ∈ rest.head?, radixDigit? letter = none

theorem numberTail_decimal (h : IsDecimal c rest) :
    numberTail c rest = decimalLength (c :: rest) - 1 := by
  unfold numberTail
  split
  · rename_i letter digits
    rw [h rfl letter rfl]
  · rfl

theorem isDecimal_or_radix (c : Char) (rest : List Char) :
    IsDecimal c rest ∨ ∃ letter digits isDigit, c = '0' ∧ rest = letter :: digits ∧
      radixDigit? letter = some isDigit := by
  by_cases hc : c = '0'
  · cases rest with
    | nil => exact .inl nofun
    | cons letter digits =>
      cases hradix : radixDigit? letter with
      | none => exact .inl fun _ _ hletter => Option.some.inj hletter ▸ hradix
      | some isDigit => exact .inr ⟨letter, digits, isDigit, hc, rfl, hradix⟩
  · exact .inl fun h => absurd h hc

theorem numberTail_le (c : Char) (rest : List Char) : numberTail c rest ≤ rest.length := by
  unfold numberTail
  split
  · rename_i letter digits
    split
    · rename_i isDigit _
      have hrun := run_le isDigit digits
      rw [List.length_cons]
      omega
    · have hle := decimalLength_le ('0' :: letter :: digits)
      rw [List.length_cons] at hle
      omega
  · have hle := decimalLength_le (c :: rest)
    rw [List.length_cons] at hle
    omega

def startsNumber (c : Char) (rest : List Char) : Bool :=
  c.isDigit || (c == '.' && startsWithDigit rest)

theorem areDigits_take_run (cs : List Char) : AreDigits (cs.take (run Char.isDigit cs)) :=
  all_take_run Char.isDigit cs

theorem isFraction_take (cs : List Char) : IsFraction (cs.take (fractionLength cs)) := by
  unfold fractionLength
  split
  · rename_i digits
    rw [Nat.add_comm, List.take_succ_cons]
    exact .point (areDigits_take_run digits)
  · exact .missing

theorem isExponent_take (cs : List Char) : IsExponent (cs.take (exponentLength cs)) := by
  have htake : ∀ ds : List Char, run Char.isDigit ds ≠ 0 → ds.take (run Char.isDigit ds) ≠ [] := by
    intro ds hds hnil
    have hlength := congrArg List.length hnil
    rw [List.length_take, Nat.min_eq_left (run_le _ _)] at hlength
    exact hds hlength
  unfold exponentLength
  split
  · rename_i letter ds
    split
    · rename_i hletter
      have hletter' : letter = 'e' ∨ letter = 'E' := by simpa using hletter
      split
      · rename_i sign digits
        split
        · rename_i hsign
          split
          · exact .missing
          · rename_i hrun
            rw [Nat.add_comm, List.take_succ_cons, List.take_succ_cons]
            exact .signed hletter' (by simpa using hsign) (htake digits hrun)
              (areDigits_take_run digits)
        · split
          · exact .missing
          · rename_i hrun
            rw [Nat.add_comm, List.take_succ_cons]
            exact .unsigned hletter' (htake _ hrun) (areDigits_take_run _)
      · exact .missing
    · exact .missing
  · exact .missing

theorem IsNumber.ne_nil (h : IsNumber cs) : cs ≠ [] := by
  cases h with
  | radix => exact List.cons_ne_nil _ _
  | @decimal whole fraction exponent _ _ _ hsome =>
    intro hnil
    obtain ⟨hwhole, htail⟩ := List.append_eq_nil_iff.mp hnil
    rcases hsome with hsome | hsome
    · exact hsome hwhole
    · rw [(List.append_eq_nil_iff.mp htail).1, List.length_nil] at hsome
      exact absurd hsome (Nat.not_lt_zero 1)

theorem isNumber_take (h : startsNumber c rest = true) :
    IsNumber (c :: rest.take (numberTail c rest)) := by
  rcases isDecimal_or_radix c rest with hdecimal | ⟨letter, digits, isDigit, rfl, rfl, hradix⟩
  · rw [numberTail_decimal hdecimal]
    have hstarts : c.isDigit = true ∨ c = '.' ∧ startsWithDigit rest = true := by
      simpa [startsNumber] using h
    have hdigit : (c :: rest).take (run Char.isDigit (c :: rest)) ≠ [] ∨
        1 < (((c :: rest).drop (run Char.isDigit (c :: rest))).take
          (fractionLength ((c :: rest).drop (run Char.isDigit (c :: rest))))).length := by
      rcases hstarts with hc | ⟨rfl, hrest⟩
      · left
        rw [run_cons_of_pos hc, List.take_succ_cons]
        exact List.cons_ne_nil _ _
      · right
        rw [run_cons_of_neg (by rfl), List.drop_zero, List.length_take,
          Nat.min_eq_left (fractionLength_le _)]
        cases rest with
        | nil => cases hrest
        | cons first others =>
          change 1 < 1 + run Char.isDigit (first :: others)
          rw [run_cons_of_pos hrest]
          omega
    have hnumber : IsNumber ((c :: rest).take (decimalLength (c :: rest))) := by
      simp only [decimalLength]
      rw [Nat.add_assoc, List.take_add, List.take_add, List.drop_drop]
      exact .decimal (areDigits_take_run _) (isFraction_take _) (isExponent_take _) hdigit
    have hpos : decimalLength (c :: rest) ≠ 0 := by
      intro hzero
      rw [hzero, List.take_zero] at hnumber
      exact hnumber.ne_nil rfl
    obtain ⟨n, hn⟩ := Nat.exists_eq_succ_of_ne_zero hpos
    rw [hn, List.take_succ_cons] at hnumber
    rw [hn]
    exact hnumber
  · rw [numberTail_radix hradix, Nat.add_comm, List.take_succ_cons]
    exact .radix hradix (all_take_run isDigit digits)

/-! No number that a text starts with is longer. -/

theorem length_le_exponentLength {exponent : List Char} (h : IsExponent exponent)
    (hleads : exponent <+: cs) : exponent.length ≤ exponentLength cs := by
  cases h with
  | missing => exact Nat.zero_le _
  | @unsigned letter digits hletter hne hdigits =>
    obtain ⟨more, rfl⟩ := hleads
    cases digits with
    | nil => exact absurd rfl hne
    | cons first others =>
      have hc : (letter == 'e' || letter == 'E') = true := by simpa using hletter
      have hfirst : first.isDigit = true := hdigits first List.mem_cons_self
      have hsign : ¬ (first == '+' || first == '-') = true := by
        intro hsign
        simp only [Bool.or_eq_true, beq_iff_eq] at hsign
        rcases hsign with rfl | rfl <;> cases hfirst
      have hle : (first :: others).length ≤ run Char.isDigit (first :: (others ++ more)) :=
        length_le_run (List.prefix_append (first :: others) more) hdigits
      rw [List.cons_append, List.cons_append, exponentLength_unsigned hc hsign, if_neg]
      · rw [List.length_cons]
        omega
      · rw [List.length_cons] at hle
        omega
  | @signed letter sign digits hletter hsign hne hdigits =>
    obtain ⟨more, rfl⟩ := hleads
    have hc : (letter == 'e' || letter == 'E') = true := by simpa using hletter
    have hsign : (sign == '+' || sign == '-') = true := by simpa using hsign
    have hle : digits.length ≤ run Char.isDigit (digits ++ more) :=
      length_le_run (List.prefix_append digits more) hdigits
    have hpos := List.length_pos_iff.mpr hne
    rw [List.cons_append, List.cons_append, exponentLength_signed hc hsign, if_neg (by omega)]
    simp only [List.length_cons]
    omega

theorem IsExponent.eq_nil {exponent : List Char} (h : IsExponent exponent)
    (hhead : ∀ d ∈ exponent.head?, d.isDigit = true ∨ d = '.') : exponent = [] := by
  cases h with
  | missing => rfl
  | unsigned hletter =>
    rcases hletter with rfl | rfl <;> rcases hhead _ rfl with hd | hd <;> cases hd
  | signed hletter =>
    rcases hletter with rfl | rfl <;> rcases hhead _ rfl with hd | hd <;> cases hd

theorem length_le_fraction_exponent {fraction exponent : List Char} (hfraction : IsFraction fraction)
    (hexponent : IsExponent exponent) (hleads : fraction ++ exponent <+: cs) :
    (fraction ++ exponent).length ≤
      fractionLength cs + exponentLength (cs.drop (fractionLength cs)) := by
  cases hfraction with
  | missing =>
    rw [List.nil_append] at hleads ⊢
    cases cs with
    | nil =>
      rw [List.prefix_nil.mp hleads]
      exact Nat.zero_le _
    | cons d more =>
      by_cases hd : d = '.'
      · have hnil : exponent = [] := by
          refine hexponent.eq_nil fun x hx => .inr ?_
          obtain ⟨tail, htail⟩ := hleads
          cases exponent with
          | nil => cases hx
          | cons y others =>
            rw [← Option.some.inj hx, ← hd]
            exact (List.cons.inj htail).1
        rw [hnil]
        exact Nat.zero_le _
      · rw [fractionLength_cons_of_ne hd, List.drop_zero, Nat.zero_add]
        exact length_le_exponentLength hexponent hleads
  | @point digits hdigits =>
    rw [List.cons_append] at hleads ⊢
    obtain ⟨tail, rfl⟩ := hleads
    rw [List.cons_append]
    have heq : fractionLength ('.' :: (digits ++ exponent ++ tail)) =
        1 + run Char.isDigit (digits ++ exponent ++ tail) := rfl
    have hle : digits.length ≤ run Char.isDigit (digits ++ exponent ++ tail) := by
      refine length_le_run ?_ hdigits
      rw [List.append_assoc]
      exact List.prefix_append _ _
    rw [heq]
    rcases Nat.eq_or_lt_of_le hle with hsame | hlt
    · rw [← hsame, Nat.add_comm 1, List.drop_succ_cons, List.append_assoc,
        List.drop_left' rfl, List.length_cons, List.length_append]
      have hexp := length_le_exponentLength hexponent (List.prefix_append exponent tail)
      omega
    · have hnil : exponent = [] :=
        hexponent.eq_nil fun d hd => .inl
          (head?_of_length_lt_run (List.prefix_append _ tail) hlt d hd)
      rw [hnil, List.append_nil, List.length_cons]
      rw [hnil, List.append_nil] at hlt
      omega

theorem length_le_decimalLength {whole fraction exponent : List Char} (hwhole : AreDigits whole)
    (hfraction : IsFraction fraction) (hexponent : IsExponent exponent)
    (hleads : whole ++ (fraction ++ exponent) <+: cs) :
    (whole ++ (fraction ++ exponent)).length ≤ decimalLength cs := by
  obtain ⟨tail, rfl⟩ := hleads
  have hle : whole.length ≤ run Char.isDigit (whole ++ (fraction ++ exponent) ++ tail) := by
    refine length_le_run ?_ hwhole
    rw [List.append_assoc]
    exact List.prefix_append _ _
  unfold decimalLength
  rcases Nat.eq_or_lt_of_le hle with hsame | hlt
  · have hdrop : (whole ++ (fraction ++ exponent) ++ tail).drop whole.length =
        fraction ++ exponent ++ tail := by
      rw [List.append_assoc, List.drop_left' rfl]
    have hrest := length_le_fraction_exponent hfraction hexponent
      (List.prefix_append (fraction ++ exponent) tail)
    simp only [← hsame, hdrop, ← List.drop_drop, List.length_append] at hrest ⊢
    omega
  · -- The digits go on, so neither a fraction nor an exponent can follow.
    have hhead := head?_of_length_lt_run (List.prefix_append _ tail) hlt
    have hnofraction : fraction = [] := by
      cases hfraction with
      | missing => rfl
      | point => cases hhead '.' rfl
    subst hnofraction
    have hnoexponent : exponent = [] :=
      hexponent.eq_nil fun d hd => .inl (hhead d hd)
    subst hnoexponent
    simp only [List.append_nil] at hlt ⊢
    omega

theorem IsNumber.startsNumber (h : IsNumber cs) (hleads : cs <+: c :: rest) :
    startsNumber c rest = true := by
  unfold Lexeme.startsNumber
  obtain ⟨tail, htail⟩ := hleads
  cases h with
  | radix =>
    rw [← (List.cons.inj htail).1]
    rfl
  | @decimal whole fraction exponent hwhole hfraction hexponent hsome =>
    cases whole with
    | cons d others =>
      rw [← (List.cons.inj htail).1, hwhole d List.mem_cons_self]
      rfl
    | nil =>
      cases hfraction with
      | missing =>
        rcases hsome with hsome | hsome
        · exact absurd rfl hsome
        · cases hsome
      | @point digits hdigits =>
        obtain ⟨rfl, hrest⟩ := List.cons.inj htail
        cases digits with
        | nil =>
          rcases hsome with hsome | hsome
          · exact absurd rfl hsome
          · cases hsome with
            | step hle => cases hle
        | cons d others =>
          have hd : startsWithDigit rest = true := by
            rw [← hrest]
            exact hdigits d List.mem_cons_self
          rw [hd]
          rfl

theorem IsNumber.length_le (h : IsNumber cs) (hleads : cs <+: c :: rest) :
    cs.length ≤ numberTail c rest + 1 := by
  rcases isDecimal_or_radix c rest with hdecimal | ⟨letter, digits, isDigit, rfl, rfl, hradix⟩
  · rw [numberTail_decimal hdecimal]
    cases h with
    | decimal hwhole hfraction hexponent =>
      have hle := length_le_decimalLength hwhole hfraction hexponent hleads
      omega
    | radix hletter =>
      obtain ⟨tail, htail⟩ := hleads
      obtain ⟨rfl, hrest⟩ := List.cons.inj htail
      have hnone := hdecimal rfl _ (by rw [← hrest]; rfl)
      rw [hnone] at hletter
      cases hletter
  · rw [numberTail_radix hradix]
    cases h with
    | decimal hwhole hfraction hexponent =>
      -- The letter of a radix ends every decimal number.
      have hle := length_le_decimalLength hwhole hfraction hexponent hleads
      have hletter : letter.isDigit = false ∧ letter ≠ '.' ∧ letter ≠ 'e' ∧ letter ≠ 'E' := by
        unfold radixDigit? at hradix
        simp only [Bool.or_eq_true, beq_iff_eq] at hradix
        split at hradix
        · rename_i hc
          rcases hc with rfl | rfl <;> decide
        · split at hradix
          · rename_i hc
            rcases hc with rfl | rfl <;> decide
          · split at hradix
            · rename_i hc
              rcases hc with rfl | rfl <;> decide
            · cases hradix
      have hone : decimalLength ('0' :: letter :: digits) = 1 := by
        have hrun : run Char.isDigit ('0' :: letter :: digits) = 1 := by
          rw [run_cons_of_pos (by rfl), run_cons_of_neg hletter.1]
        simp only [decimalLength, hrun, List.drop_succ_cons, List.drop_zero,
          fractionLength_cons_of_ne hletter.2.1,
          exponentLength_cons_of_ne hletter.2.2.1 hletter.2.2.2]
      omega
    | @radix letter' isDigit' digits' hletter hdigits =>
      obtain ⟨hhead, htail⟩ := List.cons_prefix_cons.mp (List.cons_prefix_cons.mp hleads).2
      subst hhead
      obtain rfl : isDigit' = isDigit := Option.some.inj (hletter.symm.trans hradix)
      have hle := length_le_run htail hdigits
      simp only [List.length_cons]
      omega

end Lexeme

namespace Punctuator

variable {c : Char} {cs : List Char} {mark : Punctuator}

theorem longest?_chars (mark : Punctuator) : longest? mark.chars = some mark := by
  cases mark <;> rfl

theorem chars_isPrefix_of_longest? (h : longest? cs = some mark) : mark.chars <+: cs := by
  unfold longest? at h
  have hfound := List.find?_some h
  exact List.isPrefixOf_iff_prefix.mp hfound

theorem mem_all (mark : Punctuator) : mark ∈ all := by
  cases mark <;> decide

theorem length_chars_pos (mark : Punctuator) : 0 < mark.chars.length := by
  cases mark <;> decide

theorem cons_take_eq_chars {rest : List Char} (h : longest? (c :: rest) = some mark) :
    c :: rest.take (mark.chars.length - 1) = mark.chars := by
  have hlength := length_chars_pos mark
  rw [← List.take_succ_cons, Nat.sub_add_cancel hlength]
  exact (List.prefix_iff_eq_take.mp (chars_isPrefix_of_longest? h)).symm

end Punctuator

namespace Lexeme

variable {c letter d : Char} {cs rest rest' : List Char} {mark : Punctuator} {k : Token.Kind}

theorem isWord_keyword (word : Keyword) : IsWord word.text.toList := by
  have hword : ∃ c rest, word.text.toList = c :: rest ∧ isWordStart c = true ∧
      rest.all isWordPart = true := by
    cases word <;> exact ⟨_, _, rfl, rfl, by decide⟩
  obtain ⟨c, rest, htext, hc, hrest⟩ := hword
  rw [htext]
  exact .mk hc (List.all_eq_true.mp hrest)

theorem mem_all_keyword (word : Keyword) : word ∈ Keyword.all := by
  cases word <;> decide

theorem keyword_text_injective : ∀ word ∈ Keyword.all, ∀ word' ∈ Keyword.all,
    word.text = word'.text → word = word' := by
  decide +kernel

theorem ofText?_eq_some_iff {text : String} {word : Keyword} :
    Keyword.ofText? text = some word ↔ word.text = text := by
  unfold Keyword.ofText?
  constructor
  · intro h
    simpa using List.find?_some h
  · rintro rfl
    have hsome : (Keyword.all.find? fun k => k.text == word.text).isSome = true :=
      List.find?_isSome.mpr ⟨word, mem_all_keyword word, beq_self_eq_true _⟩
    obtain ⟨word', hword'⟩ := Option.isSome_iff_exists.mp hsome
    have htext : word'.text = word.text := by simpa using List.find?_some hword'
    rw [hword', keyword_text_injective word' (mem_all_keyword word') word (mem_all_keyword word) htext]

def wordKind (word : String) : Token.Kind :=
  match Keyword.ofText? word with
  | some word => .keyword word
  | none => .identifier

theorem isLexeme_wordKind {cs : List Char} (h : IsWord cs) :
    IsLexeme (wordKind (String.ofList cs)) cs := by
  unfold wordKind
  split
  · rename_i word hword
    have htext := ofText?_eq_some_iff.mp hword
    have hcs : word.text.toList = cs := by rw [htext, String.toList_ofList]
    exact hcs ▸ .keyword word
  · rename_i hnone
    refine .identifier h fun word hword => ?_
    have hsome : Keyword.ofText? (String.ofList cs) = some word := by
      rw [ofText?_eq_some_iff, ← hword, String.ofList_toList]
    rw [hsome] at hnone
    cases hnone

def isQuote (c : Char) : Bool :=
  c == '"' || c == '\'' || c == '\x60'

theorem isQuote_iff : isQuote d = true ↔ d = '"' ∨ d = '\'' ∨ d = '\x60' := by
  simp only [isQuote, Bool.or_eq_true, beq_iff_eq, or_assoc]

def startsMark (c : Char) : Bool :=
  !(isQuote c || isBlank c || Text.isLineBreak c)

theorem all_pairwise_length :
    Punctuator.all.Pairwise fun a b => b.chars.length ≤ a.chars.length := by
  decide

theorem length_chars_le_longest? {mark found : Punctuator} {cs : List Char}
    (hleads : mark.chars <+: cs) (h : Punctuator.longest? cs = some found) :
    mark.chars.length ≤ found.chars.length := by
  obtain ⟨_, before, after, hall, hbefore⟩ := List.find?_eq_some_iff_append.mp h
  have hmem : mark ∈ before ++ found :: after := hall ▸ Punctuator.mem_all mark
  rcases List.mem_append.mp hmem with hmem | hmem
  · have hno := hbefore mark hmem
    rw [List.isPrefixOf_iff_prefix.mpr hleads] at hno
    cases hno
  · rcases List.mem_cons.mp hmem with rfl | hmem
    · exact Nat.le_refl _
    · have hpairs := hall ▸ all_pairwise_length
      exact (List.pairwise_cons.mp (List.pairwise_append.mp hpairs).2.1).1 mark hmem

theorem longest?_isSome {mark : Punctuator} {cs : List Char} (hleads : mark.chars <+: cs) :
    ∃ found, Punctuator.longest? cs = some found :=
  Option.isSome_iff_exists.mp (List.find?_isSome.mpr
    ⟨mark, Punctuator.mem_all mark, List.isPrefixOf_iff_prefix.mpr hleads⟩)

theorem first_of_chars (mark : Punctuator) : ∃ c t, mark.chars = c :: t ∧ isWordStart c = false ∧
    c.isDigit = false ∧ startsMark c = true ∧ (c = '.' → t = [] ∨ t = ['.', '.']) := by
  cases mark <;> exact ⟨_, _, rfl, by decide⟩

/-!
# Greedy cutting

What is cut from a text is a lexeme, and no lexeme that the text starts with is
longer.
-/

theorem not_isDigit_of_isWordStart (h : isWordStart c = true) : c.isDigit = false := by
  refine Bool.eq_false_iff.mpr fun hdigit => ?_
  unfold isWordStart Char.isAlpha Char.isUpper Char.isLower at h
  simp only [Bool.or_eq_true, Bool.and_eq_true, decide_eq_true_eq, ge_iff_le,
    UInt32.le_iff_toNat_le, beq_iff_eq] at h
  simp only [Char.isDigit, Bool.and_eq_true, decide_eq_true_eq, ge_iff_le,
    UInt32.le_iff_toNat_le] at hdigit
  rcases h with ((⟨h, _⟩ | ⟨h, _⟩) | rfl) | rfl
  · exact absurd (Nat.le_trans h hdigit.2) (by decide)
  · exact absurd (Nat.le_trans h hdigit.2) (by decide)
  · exact absurd hdigit.2 (by decide)
  · exact absurd hdigit.1 (by decide)

theorem wordKind_cases (word : String) :
    wordKind word = .identifier ∨ ∃ key, wordKind word = .keyword key := by
  unfold wordKind
  split
  · exact .inr ⟨_, rfl⟩
  · exact .inl rfl

theorem classify_word (hc : isWordStart c = true) : classify c rest =
    (wordKind (String.ofList (c :: rest.take (run isWordPart rest))), run isWordPart rest) := by
  unfold classify wordKind
  rw [if_pos hc]
  dsimp only
  cases Keyword.ofText? (String.ofList (c :: rest.take (run isWordPart rest))) with
  | none => rfl
  | some word => rfl

theorem classify_number (hc : isWordStart c = false) (hnumber : startsNumber c rest = true) :
    classify c rest = (.number, numberTail c rest) := by
  unfold startsNumber at hnumber
  unfold classify
  rw [hc, if_neg Bool.false_ne_true, hnumber, if_pos rfl]

theorem classify_blank (hc : isBlank c = true) : classify c rest = (.space, run isBlank rest) := by
  unfold isBlank at hc
  simp only [Bool.or_eq_true, beq_iff_eq] at hc
  rcases hc with (rfl | rfl) | rfl <;> rfl

theorem classify_mark (hc : isWordStart c = false) (hnumber : startsNumber c rest = false)
    (hmark : startsMark c = true) : classify c rest =
      match Punctuator.longest? (c :: rest) with
      | some mark => (.punct mark, mark.chars.length - 1)
      | none => (.any, 0) := by
  unfold startsNumber at hnumber
  unfold startsMark isQuote at hmark
  simp only [Bool.not_eq_eq_eq_not, Bool.not_true, Bool.or_eq_false_iff] at hmark
  obtain ⟨⟨⟨⟨hdouble, hsingle⟩, hback⟩, hblank⟩, hbreak⟩ := hmark
  unfold classify
  rw [hc, if_neg Bool.false_ne_true, hnumber, if_neg Bool.false_ne_true, hdouble, hsingle,
    Bool.or_false, if_neg Bool.false_ne_true, hback, if_neg Bool.false_ne_true, hblank,
    if_neg Bool.false_ne_true, hbreak]
  exact if_neg Bool.false_ne_true

theorem classify_le (c : Char) (rest : List Char) : (classify c rest).2 ≤ rest.length := by
  unfold classify
  split
  · dsimp only
    split <;> exact run_le _ _
  · split
    · exact numberTail_le c rest
    · split
      · exact Nat.zero_le _
      · split
        · exact Nat.zero_le _
        · split
          · exact run_le _ _
          · split
            · exact Nat.zero_le _
            · split
              · rename_i mark hmark
                have hle := (Punctuator.chars_isPrefix_of_longest? hmark).length_le
                rw [List.length_cons] at hle
                dsimp only
                omega
              · exact Nat.zero_le _

theorem isLexeme_of_classify (c : Char) (rest : List Char) :
    IsLexeme (classify c rest).1 (c :: rest.take (classify c rest).2) ∨
      classify c rest = (.any, 0) := by
  cases hc : isWordStart c with
  | true =>
    rw [classify_word hc]
    exact .inl (isLexeme_wordKind (.mk hc (all_take_run isWordPart rest)))
  | false =>
    cases hnumber : startsNumber c rest with
    | true =>
      rw [classify_number hc hnumber]
      exact .inl (.number (isNumber_take hnumber))
    | false =>
      by_cases hblank : isBlank c = true
      · rw [classify_blank hblank]
        exact .inl (.space (List.cons_ne_nil _ _)
          (List.forall_mem_cons.mpr ⟨hblank, all_take_run isBlank rest⟩))
      cases hstarts : startsMark c with
      | true =>
        rw [classify_mark hc hnumber hstarts]
        cases hmark : Punctuator.longest? (c :: rest) with
        | none => exact .inr rfl
        | some mark => exact .inl (Punctuator.cons_take_eq_chars hmark ▸ .punct mark)
      | false =>
        unfold startsMark at hstarts
        rw [Bool.not_eq_eq_eq_not, Bool.not_false, Bool.or_eq_true, Bool.or_eq_true] at hstarts
        rcases hstarts with (hquote | hno) | hbreak
        · rcases isQuote_iff.mp hquote with rfl | rfl | rfl
          · exact .inl (.stringQuote (.inl rfl))
          · exact .inl (.stringQuote (.inr rfl))
          · exact .inl .templateQuote
        · exact absurd hno hblank
        · have hclassify : classify c rest = (.newline, 0) := by
            simp only [Text.isLineBreak, Bool.or_eq_true, beq_iff_eq] at hbreak
            rcases hbreak with (rfl | rfl) | rfl <;> rfl
          rw [hclassify]
          exact .inl (.newline hbreak)

theorem IsWord.le_classify {p : List Char} (h : IsWord p) (hleads : p <+: c :: rest) :
    (classify c rest).1 ≠ .any ∧ p.length ≤ (classify c rest).2 + 1 := by
  cases h with
  | mk hc hparts =>
    obtain ⟨rfl, htail⟩ := List.cons_prefix_cons.mp hleads
    rw [classify_word hc]
    refine ⟨?_, Nat.succ_le_succ (length_le_run htail hparts)⟩
    rcases wordKind_cases (String.ofList (_ :: rest.take (run isWordPart rest)))
      with hword | ⟨key, hword⟩ <;> rw [hword] <;> exact nofun

theorem isWordStart_eq_false_of_startsNumber (h : startsNumber c rest = true) :
    isWordStart c = false := by
  refine Bool.eq_false_iff.mpr fun hc => ?_
  have hstarts : c.isDigit = true ∨ c = '.' ∧ startsWithDigit rest = true := by
    simpa [startsNumber] using h
  rcases hstarts with hdigit | ⟨rfl, _⟩
  · rw [not_isDigit_of_isWordStart hc] at hdigit
    cases hdigit
  · cases hc

theorem le_classify {k : Token.Kind} {p : List Char} (h : IsLexeme k p) (hleads : p <+: c :: rest) :
    (classify c rest).1 ≠ .any ∧ p.length ≤ (classify c rest).2 + 1 := by
  cases h with
  | identifier hword => exact hword.le_classify hleads
  | keyword word => exact (isWord_keyword word).le_classify hleads
  | number hnumber =>
    have hstarts := hnumber.startsNumber hleads
    rw [classify_number (isWordStart_eq_false_of_startsNumber hstarts) hstarts]
    exact ⟨nofun, hnumber.length_le hleads⟩
  | stringQuote hquote =>
    obtain ⟨rfl, _⟩ := List.cons_prefix_cons.mp hleads
    rcases hquote with rfl | rfl <;> exact ⟨nofun, Nat.le_refl _⟩
  | templateQuote =>
    obtain ⟨rfl, _⟩ := List.cons_prefix_cons.mp hleads
    exact ⟨nofun, Nat.le_refl _⟩
  | space hne hblanks =>
    cases p with
    | nil => exact absurd rfl hne
    | cons d others =>
      obtain ⟨rfl, htail⟩ := List.cons_prefix_cons.mp hleads
      rw [classify_blank (hblanks d List.mem_cons_self)]
      exact ⟨nofun, Nat.succ_le_succ
        (length_le_run htail fun x hx => hblanks x (List.mem_cons_of_mem d hx))⟩
  | newline hbreak =>
    obtain ⟨rfl, _⟩ := List.cons_prefix_cons.mp hleads
    simp only [Text.isLineBreak, Bool.or_eq_true, beq_iff_eq] at hbreak
    rcases hbreak with (rfl | rfl) | rfl <;> exact ⟨nofun, Nat.le_refl _⟩
  | punct mark =>
    obtain ⟨d, t, hchars, hword, hdigit, hstarts, hpoint⟩ := first_of_chars mark
    have hcons := hleads
    rw [hchars] at hcons
    obtain ⟨rfl, htail⟩ := List.cons_prefix_cons.mp hcons
    cases hnumber : startsNumber d rest with
    | true =>
      rw [classify_number hword hnumber, hchars]
      refine ⟨nofun, ?_⟩
      have hdot : d = '.' ∧ startsWithDigit rest = true := by
        simpa [startsNumber, hdigit] using hnumber
      rcases hpoint hdot.1 with rfl | rfl
      · exact Nat.succ_le_succ (Nat.zero_le _)
      · obtain ⟨more, rfl⟩ := htail
        cases hdot.2
    | false =>
      rw [classify_mark hword hnumber hstarts]
      obtain ⟨found, hfound⟩ := longest?_isSome hleads
      have hle := length_chars_le_longest? hleads hfound
      have hpos := Punctuator.length_chars_pos found
      rw [hfound]
      exact ⟨nofun, by dsimp only; omega⟩

/-- What is cut from a text is the longest lexeme it starts with. -/
theorem isLongest_classify (c : Char) (rest : List Char) :
    IsLongest (classify c rest).1 (c :: rest.take (classify c rest).2) (c :: rest) where
  starts := List.cons_prefix_cons.mpr ⟨rfl, List.take_prefix _ _⟩
  lexeme := by
    rcases isLexeme_of_classify c rest with h | hany
    · exact .inl h
    · refine .inr ⟨by rw [hany], by rw [hany]; rfl, fun k p hleads h => ?_⟩
      exact (le_classify h hleads).1 (by rw [hany])
  longest k p hleads h := by
    rw [List.length_cons, List.length_take, Nat.min_eq_left (classify_le c rest)]
    exact (le_classify h hleads).2

/-!
# Lexemes decide

What is cut from a text depends on the lexemes that it starts with and on nothing
else.
-/

theorem IsLexeme.classify_eq {p : List Char} (h : IsLexeme k p) (hp : p = c :: rest) :
    classify c rest = (k, rest.length) := by
  have hleads : p <+: c :: rest := hp ▸ List.prefix_rfl
  have hlength : (classify c rest).2 = rest.length := by
    have hle := (le_classify h hleads).2
    rw [hp, List.length_cons] at hle
    exact Nat.le_antisymm (classify_le c rest) (Nat.le_of_succ_le_succ hle)
  refine Prod.ext ?_ hlength
  have hword : IsWord p → (classify c rest).1 = wordKind (String.ofList p) := by
    rintro ⟨hc, _⟩
    obtain ⟨rfl, rfl⟩ := List.cons.inj hp
    rw [classify_word hc] at hlength ⊢
    dsimp only at hlength ⊢
    rw [hlength, List.take_length]
  cases h with
  | identifier h hno =>
    rw [hword h, wordKind]
    split
    · rename_i word hfound
      refine absurd ?_ (hno word)
      rw [ofText?_eq_some_iff.mp hfound, String.toList_ofList]
    · rfl
  | keyword word =>
    rw [hword (isWord_keyword word), String.ofList_toList, wordKind, ofText?_eq_some_iff.mpr rfl]
  | number h =>
    have hstarts := h.startsNumber hleads
    rw [classify_number (isWordStart_eq_false_of_startsNumber hstarts) hstarts]
  | stringQuote hquote =>
    rcases hquote with rfl | rfl <;> cases hp <;> rfl
  | templateQuote =>
    cases hp
    rfl
  | space _ hblanks => rw [classify_blank (hblanks c (hp ▸ List.mem_cons_self))]
  | newline hbreak =>
    simp only [Text.isLineBreak, Bool.or_eq_true, beq_iff_eq] at hbreak
    rcases hbreak with (rfl | rfl) | rfl <;> cases hp <;> rfl
  | punct mark => cases mark <;> cases hp <;> rfl

/-- What is cut from a text depends on the lexemes that the text starts with. -/
theorem classify_congr (h : ∀ k p, IsLexeme k p → (p <+: c :: rest ↔ p <+: c :: rest')) :
    classify c rest = classify c rest' := by
  have hstarts := (isLongest_classify c rest).starts
  have hstarts' := (isLongest_classify c rest').starts
  rcases isLexeme_of_classify c rest with hl | hany
  · have hleads := (h _ _ hl).mp hstarts
    obtain ⟨hne, hle⟩ := le_classify hl hleads
    rcases isLexeme_of_classify c rest' with hl' | hany
    · have hle' := (le_classify hl' ((h _ _ hl').mpr hstarts')).2
      have hlength := classify_le c rest
      have hlength' := classify_le c rest'
      simp only [List.length_cons, List.length_take] at hle hle'
      have hsame : rest.take (classify c rest).2 = rest'.take (classify c rest').2 := by
        have heq := List.prefix_iff_eq_take.mp (List.cons_prefix_cons.mp hleads).2
        rw [heq, List.length_take]
        congr 1
        omega
      have hcut := hl.classify_eq rfl
      rw [hsame, hl'.classify_eq rfl] at hcut
      refine Prod.ext (Prod.mk.inj hcut).1.symm ?_
      omega
    · exact absurd (by rw [hany]) hne
  · rcases isLexeme_of_classify c rest' with hl' | hany'
    · exact absurd (by rw [hany]) (le_classify hl' ((h _ _ hl').mpr hstarts')).1
    · rw [hany, hany']

theorem classify_take {n : Nat} (hn : (classify c rest).2 ≤ n) :
    classify c (rest.take n) = classify c rest := by
  refine classify_congr fun k p h => ⟨fun hleads => hleads.trans ?_, fun hleads => ?_⟩
  · exact List.cons_prefix_cons.mpr ⟨rfl, List.take_prefix n rest⟩
  · have hle := (le_classify h hleads).2
    refine List.prefix_of_prefix_length_le hleads
      (List.cons_prefix_cons.mpr ⟨rfl, List.take_prefix n rest⟩) ?_
    have hle' := hleads.length_le
    simp only [List.length_cons, List.length_take] at hle' ⊢
    omega

theorem IsLongest.keyword_iff {text : List Char} (h : IsLongest k text cs) (word : Keyword) :
    k = .keyword word ↔ text = word.text.toList := by
  constructor
  · rintro rfl
    rcases h.lexeme with h | ⟨hany, _⟩
    · cases h
      rfl
    · cases hany
  · rintro rfl
    rcases h.lexeme with hlexeme | ⟨_, _, hno⟩
    · cases hp : word.text.toList with
      | nil => cases hp ▸ isWord_keyword word
      | cons c rest =>
        exact congrArg Prod.fst
          ((hlexeme.classify_eq hp).symm.trans ((IsLexeme.keyword word).classify_eq hp))
    · exact absurd (.keyword word) (hno _ _ h.starts)

theorem IsLongest.ne_endOfInput {text : List Char} (h : IsLongest k text cs) : k ≠ .endOfInput := by
  rintro rfl
  rcases h.lexeme with hlexeme | ⟨hany, _⟩
  · cases hlexeme
  · cases hany

end Lexeme
end ScriptBundler
