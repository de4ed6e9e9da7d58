import ScriptBundler.Printer.Piece
import ScriptBundler.Proofs.LexicalGrammar

/-!
# How a text falls into lexemes

Cutting a text is local.  Where a lexeme ends depends on the character behind
it only, so a lexeme that stands on its own can be put in front of any text
that does not go on with it.  No lexeme goes on behind a quote: the lexemes of
a literal are the same wherever the literal is written.
-/

namespace ScriptBundler
namespace Lexeme

variable {c letter d : Char} {cs rest more digits : List Char} {isDigit : Char → Bool}
  {mark : Punctuator} {k : Token.Kind} {l : Lexeme}

/-- Quotes, line breaks and other characters that are never put together with
what stands beside them. -/
def alone : List Char :=
  ['"', '\'', '\x60', '\n', '\x0b', '\x0c', '\\', '(', ')', '\x7b', '\x7d', ';']

theorem mem_alone_of_isQuote (hd : isQuote d = true) : d ∈ alone := by
  rcases isQuote_iff.mp hd with rfl | rfl | rfl <;> decide

theorem mem_alone_of_isLineBreak (h : Text.isLineBreak c = true) : c ∈ alone := by
  simp only [Text.isLineBreak, Bool.or_eq_true, beq_iff_eq] at h
  rcases h with (rfl | rfl) | rfl <;> decide

theorem notMem_alone_of {p : Char → Bool} (hp : alone.any p = false) (h : p c = true) :
    c ∉ alone := by
  intro hc
  rw [List.any_eq_false] at hp
  exact hp c hc h

theorem IsWord.notMem_alone (h : IsWord cs) : ∀ c ∈ cs, c ∉ alone := by
  cases h with
  | mk hfirst hrest =>
    exact List.forall_mem_cons.mpr ⟨notMem_alone_of rfl hfirst,
      fun c hc => notMem_alone_of rfl (hrest c hc)⟩

theorem isHexDigit_of_isRadixDigit (h : radixDigit? letter = some isDigit) (hd : isDigit d = true) :
    isHexDigit d = true := by
  unfold radixDigit? at h
  split at h
  · cases h
    exact hd
  · split at h
    · cases h
      have hdigit : d.isDigit = true := by
        simp only [isOctalDigit, Bool.and_eq_true, decide_eq_true_eq, Char.le_def,
          UInt32.le_iff_toNat_le] at hd
        simp only [Char.isDigit, Bool.and_eq_true, decide_eq_true_eq, ge_iff_le,
          UInt32.le_iff_toNat_le]
        exact ⟨hd.1, Nat.le_trans hd.2 (by decide)⟩
      rw [isHexDigit, hdigit, Bool.true_or, Bool.true_or]
    · split at h
      · cases h
        simp only [isBinaryDigit, Bool.or_eq_true, beq_iff_eq] at hd
        rcases hd with rfl | rfl <;> rfl
      · cases h

theorem IsNumber.forall_mem {p : Char → Prop} (h : IsNumber cs)
    (hdigit : ∀ c, isHexDigit c = true → p c)
    (hother : ∀ c ∈ ['.', '+', '-', 'e', 'E', 'x', 'X', 'o', 'O', 'b', 'B'], p c) :
    ∀ c ∈ cs, p c := by
  have hdigits : ∀ {cs}, AreDigits cs → ∀ c ∈ cs, p c :=
    fun h c hc => hdigit c (by rw [isHexDigit, h c hc, Bool.true_or, Bool.true_or])
  have hletters : ∀ {letter}, letter = 'e' ∨ letter = 'E' → p letter := by
    rintro _ (rfl | rfl) <;> exact hother _ (by decide)
  cases h with
  | decimal hwhole hfraction hexponent =>
    refine List.forall_mem_append.mpr ⟨hdigits hwhole, List.forall_mem_append.mpr ⟨?_, ?_⟩⟩
    · cases hfraction with
      | missing => exact nofun
      | point h => exact List.forall_mem_cons.mpr ⟨hother _ (by decide), hdigits h⟩
    · cases hexponent with
      | missing => exact nofun
      | unsigned hletter _ h => exact List.forall_mem_cons.mpr ⟨hletters hletter, hdigits h⟩
      | signed hletter hsign _ h =>
        refine List.forall_mem_cons.mpr ⟨hletters hletter, List.forall_mem_cons.mpr ⟨?_, hdigits h⟩⟩
        rcases hsign with rfl | rfl <;> exact hother _ (by decide)
  | @radix letter isDigit digits hradix h =>
    have hletter : letter ∈ ['x', 'X', 'o', 'O', 'b', 'B'] := by
      refine Decidable.byContradiction fun hno => ?_
      simp only [List.mem_cons, List.not_mem_nil, or_false, not_or] at hno
      simp [radixDigit?, hno] at hradix
    refine List.forall_mem_cons.mpr ⟨hdigit _ rfl, List.forall_mem_cons.mpr ⟨?_, fun c hc => ?_⟩⟩
    · exact hother _ (List.mem_append_right ['.', '+', '-', 'e', 'E'] hletter)
    · exact hdigit c (isHexDigit_of_isRadixDigit hradix (h c hc))

theorem chars_eq_singleton (mark : Punctuator) :
    ∀ c ∈ mark.chars, c ∈ alone → mark.chars = [c] := by
  have hall : ∀ mark ∈ Punctuator.all,
      (mark.chars.all fun c => decide (c ∈ alone → mark.chars = [c])) = true := by
    decide +kernel
  intro c hc
  exact of_decide_eq_true (List.all_eq_true.mp (hall mark (Punctuator.mem_all mark)) c hc)

theorem IsLexeme.eq_singleton (h : IsLexeme k cs) (hc : c ∈ cs) (halone : c ∈ alone) :
    cs = [c] := by
  cases h with
  | identifier hword => exact absurd halone (hword.notMem_alone c hc)
  | keyword word => exact absurd halone ((isWord_keyword word).notMem_alone c hc)
  | number hnumber =>
    refine absurd halone (hnumber.forall_mem (fun c hc => notMem_alone_of rfl hc) ?_ c hc)
    simp [alone]
  | space _ hblanks => exact absurd halone (notMem_alone_of rfl (hblanks c hc))
  | punct mark => exact chars_eq_singleton mark c hc halone
  | stringQuote | templateQuote | newline => rw [List.mem_singleton.mp hc]

theorem classify_append_alone (c : Char) (rest more : List Char) (hd : d ∈ alone) :
    classify c (rest ++ d :: more) = classify c rest := by
  refine classify_congr fun k p h => ⟨fun hleads => ?_, fun hleads => ?_⟩
  · rw [← List.cons_append] at hleads
    refine List.prefix_of_prefix_length_le hleads (List.prefix_append _ _) ?_
    refine Nat.le_of_not_lt fun hlt => ?_
    have hlonger : c :: rest ++ [d] <+: p := by
      refine List.prefix_of_prefix_length_le ⟨more, by simp⟩ hleads ?_
      rwa [List.length_append]
    have hp := h.eq_singleton
      (hlonger.subset (List.mem_append_right _ (List.mem_singleton_self d))) hd
    rw [hp, List.length_cons, List.length_singleton] at hlt
    omega
  · rw [← List.cons_append]
    exact hleads.trans (List.prefix_append _ _)

/-!
# A lexeme in front of a character that does not go on with it

Such a lexeme is cut as if nothing followed.
-/

theorem run_append {p : Char → Bool} (cs more : List Char) (h : p d = false) :
    run p (cs ++ d :: more) = run p cs := by
  induction cs with
  | nil => exact run_cons_of_neg h
  | cons c cs ih =>
    rw [List.cons_append]
    cases hc : p c with
    | true => rw [run_cons_of_pos hc, run_cons_of_pos hc, ih]
    | false => rw [run_cons_of_neg hc, run_cons_of_neg hc]

theorem exponentLength_of_not (hc : ¬ (c == 'e' || c == 'E') = true) :
    exponentLength (c :: cs) = 0 := by
  simp only [exponentLength, hc, Bool.false_eq_true, if_false]

theorem exponentLength_singleton (c : Char) : exponentLength [c] = 0 := by
  simp [exponentLength]

theorem exponentLength_append (h : exponentLength cs = cs.length) (hdigit : d.isDigit = false)
    (he : d ≠ 'e') (hE : d ≠ 'E') : exponentLength (cs ++ d :: more) = cs.length := by
  match cs with
  | [] => exact exponentLength_cons_of_ne he hE
  | [c] => exact absurd (h.symm.trans (exponentLength_singleton c)) (by simp)
  | c :: sign :: digits =>
    have hlength : (c :: sign :: digits).length ≠ 0 := by simp
    rw [← h] at hlength ⊢
    by_cases hc : (c == 'e' || c == 'E') = true
    · by_cases hsign : (sign == '+' || sign == '-') = true
      · rw [List.cons_append, List.cons_append, exponentLength_signed hc hsign,
          exponentLength_signed hc hsign, run_append _ _ hdigit]
      · rw [List.cons_append, List.cons_append, exponentLength_unsigned hc hsign,
          exponentLength_unsigned hc hsign, ← List.cons_append, run_append _ _ hdigit]
    · exact absurd (exponentLength_of_not hc) hlength

theorem decimalLength_append (h : decimalLength cs = cs.length) (hdigit : d.isDigit = false)
    (he : d ≠ 'e') (hE : d ≠ 'E') (hpoint : d = '.' → run Char.isDigit cs < cs.length) :
    decimalLength (cs ++ d :: more) = cs.length := by
  generalize hw : run Char.isDigit cs = w
  generalize hf : fractionLength (cs.drop w) = f
  have hwle : w ≤ cs.length := hw ▸ run_le _ _
  have hfle : f ≤ cs.length - w := by
    rw [← hf, ← List.length_drop]
    exact fractionLength_le _
  have hwhole : run Char.isDigit (cs ++ d :: more) = w := by
    rw [run_append _ _ hdigit, hw]
  have hdrop : ∀ n, n ≤ cs.length → (cs ++ d :: more).drop n = cs.drop n ++ d :: more :=
    fun n hn => List.drop_append_of_le_length hn
  have hfraction : fractionLength ((cs ++ d :: more).drop w) = f := by
    rw [hdrop w hwle, ← hf]
    generalize hrest : cs.drop w = rest
    cases rest with
    | nil =>
      refine fractionLength_cons_of_ne fun hd => ?_
      have hlt := hpoint hd
      have hlength := congrArg List.length hrest
      rw [List.length_drop, List.length_nil] at hlength
      omega
    | cons c digits =>
      by_cases hc : c = '.'
      · subst hc
        exact congrArg (1 + ·) (run_append digits more hdigit)
      · rw [List.cons_append, fractionLength_cons_of_ne hc, fractionLength_cons_of_ne hc]
  have hexponent : exponentLength (cs.drop (w + f)) = (cs.drop (w + f)).length := by
    have hlength : w + f + exponentLength (cs.drop (w + f)) = cs.length := by
      rw [← h]
      simp only [decimalLength, hw, hf]
    rw [List.length_drop]
    omega
  have hrest : exponentLength (cs.drop (w + f) ++ d :: more) = (cs.drop (w + f)).length :=
    exponentLength_append hexponent hdigit he hE
  rw [← hdrop (w + f) (by omega), List.length_drop] at hrest
  simp only [decimalLength, hwhole, hfraction, hrest]
  omega

theorem isWordPart_of_radixDigit? (h : radixDigit? letter = some isDigit) :
    isWordPart letter = true := by
  unfold radixDigit? at h
  simp only [Bool.or_eq_true, beq_iff_eq] at h
  split at h
  · rename_i hc
    rcases hc with rfl | rfl <;> rfl
  · split at h
    · rename_i hc
      rcases hc with rfl | rfl <;> rfl
    · split at h
      · rename_i hc
        rcases hc with rfl | rfl <;> rfl
      · cases h

theorem IsDecimal.of_head? {rest' : List Char} (h : IsDecimal c rest)
    (hhead : ∀ letter ∈ rest'.head?, rest.head? = some letter ∨ isWordPart letter = false) :
    IsDecimal c rest' := by
  intro hc letter hletter
  rcases hhead letter hletter with hsame | hword
  · exact h hc letter hsame
  · cases hradix : radixDigit? letter with
    | none => rfl
    | some isDigit =>
      rw [isWordPart_of_radixDigit? hradix] at hword
      cases hword

theorem isAlpha_of_le {low high : Char} (hlow : low ≤ d) (hhigh : d ≤ high)
    (h : 'a' ≤ low ∧ high ≤ 'z' ∨ 'A' ≤ low ∧ high ≤ 'Z') : d.isAlpha = true := by
  simp only [Char.le_def, UInt32.le_iff_toNat_le] at hlow hhigh h
  unfold Char.isAlpha Char.isUpper Char.isLower
  simp only [Bool.or_eq_true, Bool.and_eq_true, decide_eq_true_eq, ge_iff_le,
    UInt32.le_iff_toNat_le]
  rcases h with h | h
  · exact .inr ⟨Nat.le_trans h.1 hlow, Nat.le_trans hhigh h.2⟩
  · exact .inl ⟨Nat.le_trans h.1 hlow, Nat.le_trans hhigh h.2⟩

theorem isWordPart_of_isHexDigit (h : isHexDigit d = true) : isWordPart d = true := by
  unfold isHexDigit at h
  unfold isWordPart isWordStart
  simp only [Bool.or_eq_true, Bool.and_eq_true, decide_eq_true_eq] at h ⊢
  rcases h with (h | h) | h
  · exact .inr h
  · exact .inl (.inl (.inl (isAlpha_of_le h.1 h.2 (by decide))))
  · exact .inl (.inl (.inl (isAlpha_of_le h.1 h.2 (by decide))))

theorem isWordPart_of_isRadixDigit (h : radixDigit? letter = some isDigit) (hd : isDigit d = true) :
    isWordPart d = true :=
  isWordPart_of_isHexDigit (isHexDigit_of_isRadixDigit h hd)

def endsNumber (number : List Char) (d : Char) : Bool :=
  !d.isDigit && d != 'e' && d != 'E' && !(d == '.' && number.all Char.isDigit) &&
    !(number.getLast?.any isWordPart && isWordPart d)

theorem all_of_run_eq {p : Char → Bool} (h : run p cs = cs.length) : cs.all p = true := by
  induction cs with
  | nil => rfl
  | cons c cs ih =>
    cases hc : p c with
    | true =>
      rw [run_cons_of_pos hc, List.length_cons, Nat.add_right_cancel_iff] at h
      rw [List.all_cons, hc, ih h]
      rfl
    | false =>
      rw [run_cons_of_neg hc] at h
      cases h

theorem numberTail_append {t : List Char}
    (hc : c.isDigit = true ∨ c = '.' ∧ startsWithDigit t = true) (h : numberTail c t = t.length)
    (hd : endsNumber (c :: t) d = true) : numberTail c (t ++ d :: more) = t.length := by
  unfold endsNumber at hd
  simp only [Bool.and_eq_true, Bool.not_eq_eq_eq_not, Bool.not_true, bne_iff_ne] at hd
  obtain ⟨⟨⟨⟨hdigit, he⟩, hE⟩, hpoint⟩, hword⟩ := hd
  rcases isDecimal_or_radix c t with hdecimal | ⟨letter, digits, isDigit, rfl, rfl, hradix⟩
  · have happend : IsDecimal c (t ++ d :: more) := by
      intro hzero
      refine hdecimal.of_head? (fun letter hletter => ?_) hzero
      subst hzero
      cases t with
      | nil => exact .inr (Option.some.inj hletter ▸ hword)
      | cons first digits => exact .inl hletter
    rw [numberTail_decimal hdecimal] at h
    have hpos : decimalLength (c :: t) ≠ 0 := by
      rcases hc with hc | ⟨rfl, _⟩
      · simp only [decimalLength, run_cons_of_pos hc]
        omega
      · have hzero : run Char.isDigit ('.' :: t) = 0 := run_cons_of_neg rfl
        simp only [decimalLength, hzero, List.drop_zero, fractionLength]
        omega
    have hlength : decimalLength (c :: t) = (c :: t).length := by
      rw [List.length_cons]
      omega
    have hnumber : decimalLength ((c :: t) ++ d :: more) = (c :: t).length := by
      refine decimalLength_append hlength hdigit he hE fun hd => ?_
      subst hd
      refine Nat.lt_of_le_of_ne (run_le _ _) fun heq => ?_
      rw [all_of_run_eq heq] at hpoint
      cases hpoint
    rw [numberTail_decimal happend, ← List.cons_append, hnumber, List.length_cons,
      Nat.add_sub_cancel]
  · rw [numberTail_radix hradix] at h
    have hno : isDigit d = false := by
      refine Bool.eq_false_iff.mpr fun hdigit => ?_
      rw [isWordPart_of_isRadixDigit hradix hdigit, Bool.and_true] at hword
      have hall : ∀ x ∈ letter :: digits, isWordPart x = true := by
        intro x hx
        rcases List.mem_cons.mp hx with rfl | hx
        · exact isWordPart_of_radixDigit? hradix
        · have hrun : run isDigit digits = digits.length := by
            rw [List.length_cons] at h
            omega
          exact isWordPart_of_isRadixDigit hradix (List.all_eq_true.mp (all_of_run_eq hrun) x hx)
      rw [List.getLast?_cons_cons, List.getLast?_eq_some_getLast (List.cons_ne_nil _ _),
        Option.any_some, hall _ (List.getLast_mem _)] at hword
      cases hword
    rw [List.cons_append, numberTail_radix hradix, run_append _ _ hno, h]

end Lexeme

namespace Punctuator

variable {d : Char} {cs : List Char} {mark : Punctuator}

def goesOn (mark : Punctuator) (d : Char) : Bool :=
  all.any fun other => (mark.chars ++ [d]).isPrefixOf other.chars

theorem longest?_congr {cs cs' : List Char}
    (h : ∀ mark : Punctuator, mark.chars <+: cs ↔ mark.chars <+: cs') :
    longest? cs = longest? cs' := by
  unfold longest?
  congr 1
  funext mark
  rw [Bool.eq_iff_iff, List.isPrefixOf_iff_prefix, List.isPrefixOf_iff_prefix]
  exact h mark

theorem longest?_append (more : List Char) (h : mark.goesOn d = false) :
    longest? (mark.chars ++ d :: more) = some mark := by
  rw [← longest?_chars mark]
  refine longest?_congr fun other => ⟨fun hother => ?_, fun hother => ?_⟩
  · -- A longer mark would go on with the character.
    rcases Nat.lt_or_ge mark.chars.length other.chars.length with hlt | hle
    · have hshort : mark.chars ++ [d] <+: mark.chars ++ d :: more := ⟨more, by simp⟩
      have hgoes : mark.chars ++ [d] <+: other.chars := by
        refine List.prefix_of_prefix_length_le hshort hother ?_
        rw [List.length_append, List.length_singleton]
        exact hlt
      unfold goesOn at h
      rw [List.any_eq_false] at h
      exact absurd (List.isPrefixOf_iff_prefix.mpr hgoes) (h other (mem_all other))
    · exact List.prefix_of_prefix_length_le hother (List.prefix_append _ _) hle
  · exact hother.trans (List.prefix_append _ _)

end Punctuator

namespace Lexeme

variable {c d : Char} {cs rest more : List Char} {mark : Punctuator} {k : Token.Kind} {l : Lexeme}

/-- Whether a character does not go on with a lexeme. -/
def endsBefore (l : Lexeme) (d : Char) : Bool :=
  match l.kind with
  | .identifier | .keyword _ => !isWordPart d
  | .number => endsNumber l.text.toList d
  | .space => !isBlank d
  | .punct mark => !(mark.goesOn d || (mark == .dot && d.isDigit))
  | _ => false

theorem classify_append {t : List Char} (h : classify c t = (k, t.length))
    (hd : endsBefore ⟨k, String.ofList (c :: t)⟩ d = true) :
    classify c (t ++ d :: more) = (k, t.length) := by
  unfold endsBefore at hd
  cases hc : isWordStart c with
  | true =>
    rw [classify_word hc] at h ⊢
    obtain ⟨hk, hlength⟩ := Prod.mk.inj h
    have hpart : isWordPart d = false := by
      rcases wordKind_cases (String.ofList (c :: t.take (run isWordPart t))) with
        hword | ⟨key, hword⟩
      · rw [hword] at hk
        subst hk
        simpa using hd
      · rw [hword] at hk
        subst hk
        simpa using hd
    rw [run_append t more hpart, hlength, List.take_left' rfl, ← hk, hlength, List.take_length]
  | false =>
    cases hnumber : startsNumber c t with
    | true =>
      rw [classify_number hc hnumber] at h
      obtain ⟨rfl, hlength⟩ := Prod.mk.inj h
      simp only [String.toList_ofList] at hd
      have hstarts : c.isDigit = true ∨ c = '.' ∧ startsWithDigit t = true := by
        simpa [startsNumber] using hnumber
      have hnumber' : startsNumber c (t ++ d :: more) = true := by
        unfold startsNumber
        rcases hstarts with hdigit | ⟨rfl, hdigit⟩
        · rw [hdigit]
          rfl
        · cases t with
          | nil => cases hdigit
          | cons first digits =>
            rw [show startsWithDigit (first :: digits ++ d :: more) = true from hdigit]
            rfl
      rw [classify_number hc hnumber', numberTail_append hstarts hlength hd]
    | false =>
      obtain ⟨hdigit, hpoint⟩ := Bool.or_eq_false_iff.mp hnumber
      by_cases hblank : isBlank c = true
      · rw [classify_blank hblank] at h ⊢
        obtain ⟨rfl, hlength⟩ := Prod.mk.inj h
        rw [run_append t more (by simpa using hd), hlength]
      by_cases hstarts : startsMark c = true
      · rw [classify_mark hc hnumber hstarts] at h
        cases hmark : Punctuator.longest? (c :: t) with
        | none =>
          rw [hmark] at h
          obtain ⟨rfl, _⟩ := Prod.mk.inj h
          cases hd
        | some mark =>
          rw [hmark] at h
          obtain ⟨rfl, hlength⟩ := Prod.mk.inj h
          have hchars : mark.chars = c :: t := by
            rw [← Punctuator.cons_take_eq_chars hmark, hlength, List.take_length]
          simp only [Bool.not_eq_eq_eq_not, Bool.not_true, Bool.or_eq_false_iff] at hd
          have hnumber' : startsNumber c (t ++ d :: more) = false := by
            unfold startsNumber
            rw [hdigit, Bool.false_or, Bool.and_eq_false_iff]
            cases t with
            | cons first digits => exact Bool.and_eq_false_iff.mp hpoint
            | nil =>
              by_cases hdot : mark = .dot
              · rw [hdot] at hd
                exact .inr hd.2
              · left
                cases mark <;> cases hchars <;> first | rfl | exact absurd rfl hdot
          rw [classify_mark hc hnumber' hstarts, ← List.cons_append, ← hchars,
            Punctuator.longest?_append more hd.1, ← hlength]
      · have hother : isQuote c = true ∨ Text.isLineBreak c = true := by
          unfold startsMark at hstarts
          rw [Bool.not_eq_true, Bool.not_eq_eq_eq_not, Bool.not_false, Bool.or_eq_true,
            Bool.or_eq_true] at hstarts
          rcases hstarts with (hquote | hno) | hbreak
          · exact .inl hquote
          · exact absurd hno hblank
          · exact .inr hbreak
        have hkind : k = .stringQuote ∨ k = .templateQuote ∨ k = .newline := by
          rcases hother with hquote | hbreak
          · rcases isQuote_iff.mp hquote with rfl | rfl | rfl <;>
              exact (Prod.mk.inj h).1 ▸ (by decide)
          · simp only [Text.isLineBreak, Bool.or_eq_true, beq_iff_eq] at hbreak
            rcases hbreak with (rfl | rfl) | rfl <;> exact (Prod.mk.inj h).1 ▸ (by decide)
        rcases hkind with rfl | rfl | rfl <;> cases hd

def lexemes : List Char → List Lexeme
  | [] => []
  | c :: rest =>
    ⟨(classify c rest).1, String.ofList (c :: rest.take (classify c rest).2)⟩ ::
      lexemes (rest.drop (classify c rest).2)
termination_by cs => cs.length
decreasing_by
  simp only [List.length_drop, List.length_cons]
  omega

theorem splitAfter_eq (done : Array Lexeme) (cs : List Char) :
    splitAfter done cs = done ++ (lexemes cs).toArray := by
  fun_induction splitAfter done cs with
  | case1 done => simp [lexemes]
  | case2 done c rest kind n hclassify ih =>
    rw [ih, lexemes, hclassify]
    simp

theorem split_eq (cs : List Char) : split cs = (lexemes cs).toArray := by
  rw [split, splitAfter_eq, Array.empty_append]

def textOf (ls : List Lexeme) : List Char :=
  ls.flatMap fun l => l.text.toList

@[simp] theorem textOf_nil : textOf [] = [] :=
  rfl

@[simp] theorem textOf_cons (l : Lexeme) (ls : List Lexeme) :
    textOf (l :: ls) = l.text.toList ++ textOf ls :=
  rfl

@[simp] theorem textOf_append (ls ls' : List Lexeme) :
    textOf (ls ++ ls') = textOf ls ++ textOf ls' :=
  List.flatMap_append

theorem textOf_lexemes (cs : List Char) : textOf (lexemes cs) = cs := by
  fun_induction lexemes cs with
  | case1 => rfl
  | case2 c rest ih =>
    rw [textOf_cons, ih, String.toList_ofList, List.cons_append, List.take_append_drop]

theorem lexemes_suffix {before after : List Lexeme} (h : lexemes cs = before ++ after) :
    lexemes (textOf after) = after := by
  induction before generalizing cs with
  | nil =>
    rw [List.nil_append] at h
    rw [← h, textOf_lexemes]
  | cons l before ih =>
    cases cs with
    | nil =>
      rw [lexemes] at h
      cases h
    | cons c rest =>
      rw [lexemes, List.cons_append] at h
      exact ih (List.cons.inj h).2

theorem lexemes_of_mem (h : l ∈ lexemes cs) : lexemes l.text.toList = [l] := by
  fun_induction lexemes cs with
  | case1 => cases h
  | case2 c rest ih =>
    rcases List.mem_cons.mp h with rfl | h
    · have hle := classify_le c rest
      rw [String.toList_ofList, lexemes, classify_take (Nat.le_refl _), List.take_take, Nat.min_self,
        List.drop_take, Nat.sub_self, List.take_zero, lexemes]
    · exact ih h

theorem lexemes_eq_singleton (h : lexemes l.text.toList = [l]) :
    ∃ c t, l.text.toList = c :: t ∧ classify c t = (l.kind, t.length) := by
  cases htext : l.text.toList with
  | nil =>
    rw [htext, lexemes] at h
    cases h
  | cons c t =>
    rw [htext, lexemes] at h
    obtain ⟨hl, hrest⟩ := List.cons.inj h
    have hlength : (classify c t).2 = t.length := by
      have hdrop := congrArg textOf hrest
      rw [textOf_lexemes, textOf_nil, List.drop_eq_nil_iff] at hdrop
      exact Nat.le_antisymm (classify_le c t) hdrop
    refine ⟨c, t, rfl, ?_⟩
    rw [← hlength, ← hl]

/-! The characters of lexemes of a kind. -/

section
variable (h : lexemes l.text.toList = [l])
include h

theorem isLongest_of_own : IsLongest l.kind l.text.toList l.text.toList := by
  obtain ⟨c, t, htext, hclassify⟩ := lexemes_eq_singleton h
  have hlongest := isLongest_classify c t
  rwa [hclassify, List.take_length, ← htext] at hlongest

theorem isLexeme_of_own (hk : l.kind = k) (hany : k ≠ .any) : IsLexeme k l.text.toList := by
  have hlongest := isLongest_of_own h
  rw [hk] at hlongest
  exact hlongest.lexeme.resolve_right fun h => hany h.1

theorem isWordPart_of_isName (hk : l.kind.isName = true) :
    ∃ c t, l.text.toList = c :: t ∧ isWordStart c = true ∧ ∀ x ∈ c :: t, isWordPart x = true := by
  have hlexeme := isLexeme_of_own h rfl (by intro hany; rw [hany] at hk; cases hk)
  have hword : IsWord l.text.toList := by
    generalize l.kind = k at hk hlexeme
    generalize l.text.toList = text at hlexeme ⊢
    cases hlexeme with
    | identifier hword => exact hword
    | keyword word => exact isWord_keyword word
    | _ => cases hk
  generalize l.text.toList = text at hword ⊢
  cases hword with
  | mk hc hrest =>
    exact ⟨_, _, rfl, hc, List.forall_mem_cons.mpr ⟨by rw [isWordPart, hc, Bool.true_or], hrest⟩⟩

theorem toList_eq_chars (hk : l.kind = .punct mark) : l.text.toList = mark.chars := by
  have hlexeme := isLexeme_of_own h hk nofun
  generalize l.text.toList = text at hlexeme ⊢
  cases hlexeme
  rfl

theorem toList_of_quote (hk : l.kind = .stringQuote ∨ l.kind = .templateQuote) :
    ∃ d, isQuote d = true ∧ l.text.toList = [d] := by
  rcases hk with hk | hk
  · have hlexeme := isLexeme_of_own h hk nofun
    generalize l.text.toList = text at hlexeme ⊢
    cases hlexeme with
    | stringQuote hquote => exact ⟨_, by rcases hquote with rfl | rfl <;> rfl, rfl⟩
  · have hlexeme := isLexeme_of_own h hk nofun
    generalize l.text.toList = text at hlexeme ⊢
    cases hlexeme
    exact ⟨_, rfl, rfl⟩

theorem lexemes_append {more : List Char} (hmore : ∀ d ∈ more.head?, l.endsBefore d = true) :
    lexemes (l.text.toList ++ more) = l :: lexemes more := by
  obtain ⟨c, t, htext, hclassify⟩ := lexemes_eq_singleton h
  have hl : l = ⟨l.kind, String.ofList (c :: t)⟩ := by
    rw [← htext, String.ofList_toList]
  cases more with
  | nil => rw [List.append_nil, h, lexemes]
  | cons d more =>
    have hd := hmore d rfl
    rw [hl] at hd
    have happend : classify c (t ++ d :: more) = (l.kind, t.length) :=
      classify_append hclassify hd
    rw [htext, List.cons_append, lexemes, happend, List.take_left' rfl, List.drop_left' rfl, ← hl]

end

theorem classify_of_mem (hd : d ∈ alone) (rest : List Char) :
    classify d rest = ((classify d []).1, 0) := by
  simp only [alone, List.mem_cons, List.not_mem_nil, or_false] at hd
  rcases hd with rfl | rfl | rfl | rfl | rfl | rfl | rfl | rfl | rfl | rfl | rfl | rfl <;> rfl

theorem lexemes_single (cs more : List Char) (hd : d ∈ alone) :
    lexemes (cs ++ d :: more) = lexemes cs ++ lexemes [d] ++ lexemes more := by
  fun_induction lexemes cs with
  | case1 =>
    rw [List.nil_append, List.nil_append, lexemes, classify_of_mem hd more, lexemes]
    simp [lexemes]
  | case2 c rest ih =>
    have hle := classify_le c rest
    rw [List.cons_append, lexemes, classify_append_alone c rest more hd,
      List.take_append_of_le_length hle, List.drop_append_of_le_length hle, ih, List.append_assoc,
      List.append_assoc, List.cons_append]

/-- A text that ends with a quote is cut without looking behind it. -/
theorem lexemes_quote (cs more : List Char) (hd : isQuote d = true) :
    lexemes (cs ++ d :: more) = lexemes (cs ++ [d]) ++ lexemes more := by
  have hmem := mem_alone_of_isQuote hd
  have hnil : lexemes [] = [] := by rw [lexemes]
  rw [lexemes_single cs more hmem, lexemes_single cs [] hmem, hnil, List.append_nil]

/-- The lexemes of a literal, which ends with a quote, are cut the same
wherever it stands. -/
theorem lexemes_literal {cs more : List Char} {before literal after : List Lexeme}
    (h : lexemes cs = before ++ (literal ++ [l]) ++ after) (hd : isQuote d = true)
    (hl : l.text.toList = [d]) :
    lexemes (textOf (literal ++ [l]) ++ more) = literal ++ [l] ++ lexemes more := by
  have htext : textOf (literal ++ [l]) = textOf literal ++ [d] := by
    rw [textOf_append, textOf_cons, hl, textOf_nil, List.append_nil]
  have hwhole : lexemes (textOf (literal ++ [l]) ++ textOf after) = literal ++ [l] ++ after := by
    rw [← textOf_append]
    exact lexemes_suffix (h.trans (List.append_assoc before _ after))
  have hafter : lexemes (textOf after) = after := lexemes_suffix h
  have hcut : ∀ rest, lexemes (textOf (literal ++ [l]) ++ rest) =
      lexemes (textOf literal ++ [d]) ++ lexemes rest := by
    intro rest
    rw [htext, List.append_assoc, List.singleton_append, lexemes_quote _ rest hd]
  rw [hcut, hafter] at hwhole
  rw [hcut, List.append_cancel_right hwhole]

end Lexeme
end ScriptBundler
