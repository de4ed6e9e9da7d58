import Mathlib.Logic.Basic
import ScriptBundler.Proofs.LexedStream
import ScriptBundler.Proofs.Finding

/-!
# Tokens in another place

What a range of tokens spells depends on these tokens and on the one behind
them, not on where they stand.  This carries the text of a template from the
stream in which it was found to the stream in which it is printed.
-/

namespace ScriptBundler

namespace Token

/-- Tokens that are no white space and no part of a sign that opens or ends a
comment. -/
structure Solid (t : Token) : Prop where
  space : t.kind ≠ .space
  newline : t.kind ≠ .newline
  input : t.kind ≠ .endOfInput
  slash : t.kind ≠ .punct .slash
  slashEq : t.kind ≠ .punct .slashEq
  star : t.startsWith '*' = false

end Token

namespace Grammar

variable {ts : Reading} {i j : Nat} {ts' : Stream} {raw pattern flags : String} {m : MethodStart}
  {H : Ending} {ph : Phrase} {e : Expr} {cx : Context} {sp : Span} {key : PropertyKey}

open Grammar.Parser

namespace Stream

/-- Where a position behind `a` stands when `a` is moved to `k`. -/
def shift (a k i : Nat) : Nat :=
  k + (i - a)

section
variable {a k : Nat}

theorem shift_add (h : a ≤ i) (n : Nat) : shift a k (i + n) = shift a k i + n := by
  unfold shift
  omega

end

theorem texts_extract {ts : Stream} (hj : j ≤ ts.tokens.size) :
    (ts.tokens.extract i j).toList.map (·.text) =
      (List.range (j - i)).map fun n => (ts.token (i + n)).text := by
  refine List.ext_getElem (by simp; omega) fun n hn hn' => ?_
  have hlt : i + n < ts.tokens.size := by
    rw [List.length_map, List.length_range] at hn'
    omega
  simp [token, Array.getElem?_eq_getElem hlt]

theorem StringRest.move {ts ts' : Stream} {a k i j : Nat} {quote : String}
    (hrest : ts.StringRest quote i j)
    (hsame : ∀ n, a ≤ n → n < j → (ts'.token (shift a k n)).lexeme = (ts.token n).lexeme) :
    a ≤ i → ts'.StringRest quote (shift a k i) (shift a k j) := by
  have hkind : ∀ n, a ≤ n → n < j → (ts'.token (shift a k n)).kind = (ts.token n).kind :=
    fun n hn hn' => congrArg Lexeme.kind (hsame n hn hn')
  have htext : ∀ n, a ≤ n → n < j → (ts'.token (shift a k n)).text = (ts.token n).text :=
    fun n hn hn' => congrArg Lexeme.text (hsame n hn hn')
  clear hsame
  induction hrest with
  | @close i hk hquote =>
    intro ha
    rw [shift_add ha]
    exact .close ((hkind i ha (by omega)).trans hk) ((htext i ha (by omega)).trans hquote)
  | @quoted i j hk hquote hrest ih =>
    intro ha
    have hlt := hrest.lt
    refine .quoted ((hkind i ha (by omega)).trans hk)
      (ne_of_eq_of_ne (htext i ha (by omega)) hquote) ?_
    rw [← shift_add ha]
    exact ih hkind htext (by omega)
  | @escape i j hk hk' hrest ih =>
    intro ha
    have hlt := hrest.lt
    refine .escape ((hkind i ha (by omega)).trans hk) ?_ ?_
    · rw [← shift_add ha, hkind (i + 1) (by omega) (by omega)]
      exact hk'
    · rw [← shift_add ha]
      exact ih hkind htext (by omega)
  | @plain i j h₁ h₂ h₃ h₄ hrest ih =>
    intro ha
    have hlt := hrest.lt
    have hk := hkind i ha (by omega)
    refine .plain (ne_of_eq_of_ne hk h₁) (ne_of_eq_of_ne hk h₂) (ne_of_eq_of_ne hk h₃)
      (ne_of_eq_of_ne hk h₄) ?_
    rw [← shift_add ha]
    exact ih hkind htext (by omega)

/-- The tokens from `a` up to `b` stand in another stream from `k` on.  Behind
them stands the same token, or one bracket that closes in place of another. -/
structure Copies (ts ts' : Stream) (a b k : Nat) : Prop where
  ended : ts.Ended
  le : a ≤ b
  size : b + 1 < ts.tokens.size
  size' : shift a k b < ts'.tokens.size
  lexeme : ∀ i, a ≤ i → i < b → (ts'.token (shift a k i)).lexeme = (ts.token i).lexeme
  edge : (ts'.token (shift a k b)).lexeme = (ts.token b).lexeme ∨
    (ts.token b).kind = .punct .rParen ∧ (ts'.token (shift a k b)).kind = .punct .rBrace
  solid : (ts.token b).Solid
  solid' : (ts'.token (shift a k b)).Solid

namespace Copies

variable {ts : Stream} {a b k n left left' : Nat} {crossed : Bool}

theorem kind (h : Copies ts ts' a b k) (ha : a ≤ i) (hb : i < b) :
    (ts'.token (shift a k i)).kind = (ts.token i).kind :=
  congrArg Lexeme.kind (h.lexeme i ha hb)

theorem text (h : Copies ts ts' a b k) (ha : a ≤ i) (hb : i < b) :
    (ts'.token (shift a k i)).text = (ts.token i).text :=
  congrArg Lexeme.text (h.lexeme i ha hb)

theorem startsWith (h : Copies ts ts' a b k) (ha : a ≤ i) (hb : i < b) (c : Char) :
    (ts'.token (shift a k i)).startsWith c = (ts.token i).startsWith c := by
  rw [Token.startsWith, h.text ha hb, Token.startsWith]

theorem endsWith (h : Copies ts ts' a b k) (ha : a ≤ i) (hb : i < b) (c : Char) :
    (ts'.token (shift a k i)).endsWith c = (ts.token i).endsWith c := by
  rw [Token.endsWith, h.text ha hb, Token.endsWith]

theorem lineCommentEnd (h : Copies ts ts' a b k) (ha : a ≤ i) (hleft : ts.tokens.size ≤ i + left)
    (hleft' : ts'.tokens.size ≤ shift a k i + left') (hend : ts.lineCommentEnd left i ≤ b) :
    ts'.lineCommentEnd left' (shift a k i) = shift a k (ts.lineCommentEnd left i) := by
  have hsize := h.size
  have hsize' := h.size'
  induction left generalizing i left' with
  | zero =>
    rw [Stream.lineCommentEnd] at hend
    omega
  | succ left ih =>
    have hlt : i < b := by
      refine Nat.lt_of_le_of_ne (Nat.le_trans le_lineCommentEnd hend) ?_
      rintro rfl
      unfold Stream.lineCommentEnd at hend
      split at hend
      · exact h.solid.newline ‹_›
      · exact h.solid.input ‹_›
      · have : i + 1 ≤ ts.lineCommentEnd left (i + 1) := le_lineCommentEnd
        omega
    have hroom : shift a k i < shift a k b := by
      unfold shift
      omega
    obtain ⟨left', rfl⟩ : ∃ n, left' = n + 1 := ⟨left' - 1, by omega⟩
    unfold Stream.lineCommentEnd at hend ⊢
    rw [h.kind ha hlt]
    split at hend
    · rfl
    · rfl
    · rw [← shift_add ha 1]
      exact ih (by omega) (by omega) (by rw [shift_add ha]; omega) hend

theorem blockCommentEndFrom (h : Copies ts ts' a b k) {afterStar : Bool} (ha : a ≤ i)
    (hleft : ts.tokens.size ≤ i + left) (hleft' : ts'.tokens.size ≤ shift a k i + left')
    (hend : (ts.blockCommentEndFrom left i afterStar crossed).1 ≤ b) :
    ts'.blockCommentEndFrom left' (shift a k i) afterStar crossed =
      (shift a k (ts.blockCommentEndFrom left i afterStar crossed).1,
        (ts.blockCommentEndFrom left i afterStar crossed).2) := by
  have hsize := h.size
  have hsize' := h.size'
  induction left generalizing i left' afterStar crossed with
  | zero =>
    rw [Stream.blockCommentEndFrom] at hend
    simp only at hend
    omega
  | succ left ih =>
    have hlt : i < b := by
      refine Nat.lt_of_le_of_ne (Nat.le_trans le_blockCommentEndFrom hend) ?_
      rintro rfl
      have hle : ∀ s c, i + 1 ≤ (ts.blockCommentEndFrom left (i + 1) s c).1 :=
        fun s c => le_blockCommentEndFrom
      unfold Stream.blockCommentEndFrom at hend
      dsimp only at hend
      split at hend
      · exact h.solid.input ‹_›
      · exact h.solid.slash ‹_›
      · exact h.solid.newline ‹_›
      · exact absurd (hle ((ts.token i).endsWith '*') crossed) (by omega)
    have hroom : shift a k i < shift a k b := by
      unfold shift
      omega
    obtain ⟨left', rfl⟩ : ∃ n, left' = n + 1 := ⟨left' - 1, by omega⟩
    have hstep : ∀ s c, (ts.blockCommentEndFrom left (i + 1) s c).1 ≤ b →
        ts'.blockCommentEndFrom left' (shift a k i + 1) s c =
          (shift a k (ts.blockCommentEndFrom left (i + 1) s c).1,
            (ts.blockCommentEndFrom left (i + 1) s c).2) := by
      intro s c hle
      rw [← shift_add ha 1]
      exact ih (by omega) (by omega) (by rw [shift_add ha]; omega) hle
    unfold Stream.blockCommentEndFrom at hend ⊢
    dsimp only at hend ⊢
    rw [h.kind ha hlt, h.endsWith ha hlt]
    split at hend
    · rfl
    · split at hend
      · rename_i hafter
        simp only [hafter, if_true, shift_add ha]
      · rename_i hafter
        simp only [hafter, Bool.false_eq_true, if_false]
        exact hstep _ _ hend
    · exact hstep _ _ hend
    · exact hstep _ _ hend

/-!
# White space

White space and comments of a range that is copied are skipped in the copy too.
-/

theorem trivium?_none (h : Copies ts ts' a b k) (ha : a ≤ i) (hb : i ≤ b)
    (hnone : ts.trivium? i = none) : ts'.trivium? (shift a k i) = none := by
  rcases Nat.eq_or_lt_of_le hb with rfl | hlt
  · unfold trivium?
    split
    · exact absurd ‹_› h.solid'.space
    · exact absurd ‹_› h.solid'.newline
    · exact absurd ‹_› h.solid'.slash
    · rfl
  · unfold trivium? at hnone ⊢
    rw [h.kind ha hlt, ← shift_add ha 1]
    dsimp only at hnone ⊢
    split at hnone
    · cases hnone
    · cases hnone
    · rcases Nat.eq_or_lt_of_le (show i + 1 ≤ b from hlt) with rfl | hnext
      · rw [h.solid'.star]
        split
        · exact absurd ‹_› h.solid'.slash
        · exact absurd ‹_› h.solid'.slashEq
        · rfl
      · rw [h.kind (by omega) hnext, h.startsWith (by omega) hnext]
        split at hnone
        · cases hnone
        · cases hnone
        · split at hnone
          · cases hnone
          · rename_i hno
            rw [if_neg hno]
    · rfl

theorem trivium?_some (h : Copies ts ts' a b k) {breaks : Bool} (ha : a ≤ i)
    (hsome : ts.trivium? i = some (n, breaks)) (hn : n ≤ b) :
    ts'.trivium? (shift a k i) = some (shift a k n, breaks) := by
  have hsize := h.size
  have hsize' := h.size'
  have hlt : i < b := Nat.lt_of_lt_of_le (lt_of_trivium? hsome) hn
  unfold trivium? at hsome ⊢
  rw [h.kind ha hlt, ← shift_add ha 1]
  dsimp only at hsome ⊢
  split at hsome
  · cases hsome
    rw [shift_add ha]
  · cases hsome
    rw [shift_add ha]
  · have hnext : i + 1 < b := by
      refine Nat.lt_of_le_of_ne hlt ?_
      rintro rfl
      rw [h.solid.star] at hsome
      split at hsome
      · exact h.solid.slash ‹_›
      · exact h.solid.slashEq ‹_›
      · cases hsome
    have hroom : shift a k i + 2 ≤ shift a k b := by
      unfold shift
      omega
    have hline : ts.lineCommentEnd (ts.tokens.size - (i + 2)) (i + 2) ≤ b →
        ts'.lineCommentEnd (ts'.tokens.size - (shift a k i + 2)) (shift a k i + 2) =
          shift a k (ts.lineCommentEnd (ts.tokens.size - (i + 2)) (i + 2)) := by
      intro hle
      rw [← shift_add ha 2]
      exact h.lineCommentEnd (by omega) (by omega) (by rw [shift_add ha]; omega) hle
    rw [h.kind (by omega) hnext, h.startsWith (by omega) hnext]
    split at hsome
    · cases hsome
      rw [hline hn]
    · cases hsome
      rw [hline hn]
    · split at hsome
      · rename_i hyes
        rw [if_pos hyes]
        injection hsome with hsome
        unfold blockCommentEnd at hsome ⊢
        dsimp only at hsome ⊢
        have hone : shift a k (i + 1) = shift a k i + 1 := shift_add ha 1
        have htwo : shift a k (i + 1 + 1) = shift a k (i + 1) + 1 := shift_add (by omega) 1
        rw [h.endsWith (by omega) hnext, h.text (by omega) hnext, ← htwo,
          h.blockCommentEndFrom (by omega) (show ts.tokens.size ≤
            i + 1 + 1 + (ts.tokens.size - (i + 1)) by omega) (by omega) (by rw [hsome]; exact hn),
          hsome]
      · cases hsome
  · cases hsome

theorem skipFrom (h : Copies ts ts' a b k) (ha : a ≤ i) (hleft : ts.tokens.size ≤ i + left)
    (hleft' : ts'.tokens.size ≤ shift a k i + left') (hend : (ts.skipFrom left i crossed).1 ≤ b) :
    ts'.skipFrom left' (shift a k i) crossed =
      (shift a k (ts.skipFrom left i crossed).1, (ts.skipFrom left i crossed).2) := by
  have hsize := h.size
  have hsize' := h.size'
  induction left generalizing i left' crossed with
  | zero =>
    rw [Stream.skipFrom] at hend
    simp only at hend
    omega
  | succ left ih =>
    unfold Stream.skipFrom at hend ⊢
    cases htrivium : ts.trivium? i with
    | none =>
      simp only [htrivium] at hend ⊢
      have hroom : shift a k i ≤ shift a k b := by
        unfold shift
        omega
      obtain ⟨left', rfl⟩ : ∃ n, left' = n + 1 := ⟨left' - 1, by omega⟩
      simp only [h.trivium?_none ha hend htrivium]
    | some piece =>
      obtain ⟨next, breaks⟩ := piece
      have hgt := lt_of_trivium? htrivium
      simp only [htrivium] at hend ⊢
      split at hend
      · rename_i hnext
        have hle : next ≤ b := Nat.le_trans (skipFrom_bounds hnext).1 hend
        have hroom : shift a k i < shift a k next ∧ shift a k next ≤ shift a k b := by
          unfold shift
          omega
        obtain ⟨left', rfl⟩ : ∃ n, left' = n + 1 := ⟨left' - 1, by omega⟩
        simp only [h.trivium?_some ha htrivium hle]
        rw [if_pos (by omega), if_pos hnext]
        exact ih (by omega) (by omega) (by omega) hend
      · simp only at hend
        omega

section
variable (h : Copies ts ts' a b k)
include h

theorem skip (ha : a ≤ i) (hb : ts.past i ≤ b + 1) :
    ts'.skip (shift a k i) = (shift a k (ts.skip i).1, (ts.skip i).2) :=
  h.skipFrom ha (by omega) (by omega) (Nat.le_of_succ_le_succ hb)

theorem lt_past (i : Nat) : i < ts.past i :=
  have := h.ended
  Stream.lt_past

section
variable (ha : a ≤ i)
include ha

theorem le_skip : a ≤ (ts.skip i).1 :=
  Nat.le_trans ha (Nat.le_of_lt_succ (h.lt_past i))

theorem past (hb : ts.past i ≤ b + 1) : ts'.past (shift a k i) = shift a k (ts.past i) := by
  unfold Stream.past
  rw [h.skip ha hb, shift_add (h.le_skip ha)]

theorem breaksAt (hb : ts.past i ≤ b + 1) : ts'.breaksAt (shift a k i) = ts.breaksAt i := by
  unfold Stream.breaksAt
  rw [h.skip ha hb]

theorem kindAt (hb : ts.past i ≤ b) : ts'.kindAt (shift a k i) = ts.kindAt i := by
  unfold Stream.kindAt nextAt
  rw [h.skip ha (Nat.le_succ_of_le hb)]
  exact h.kind (h.le_skip ha) hb

theorem textAt (hb : ts.past i ≤ b) : ts'.textAt (shift a k i) = ts.textAt i := by
  unfold Stream.textAt nextAt
  rw [h.skip ha (Nat.le_succ_of_le hb)]
  exact h.text (h.le_skip ha) hb

/-- The token behind the range is the same or another bracket that closes. -/
theorem kindAt_edge (hb : ts.past i ≤ b + 1) :
    ts'.kindAt (shift a k i) = ts.kindAt i ∨ ts'.kindAt (shift a k i) = .punct .rBrace := by
  rcases Nat.eq_or_lt_of_le hb with heq | hlt
  · have hskip : (ts.skip i).1 = b := Nat.succ.inj heq
    unfold Stream.kindAt nextAt
    rw [h.skip ha hb, hskip]
    rcases h.edge with hsame | ⟨_, hbrace⟩
    · exact .inl (congrArg Lexeme.kind hsame)
    · exact .inr hbrace
  · exact .inl (h.kindAt ha (Nat.le_of_lt_succ hlt))

theorem textBetween (hij : i ≤ j) (hj : j ≤ b + 1)
    (hsame : ∀ n, i ≤ n → n < j → (ts'.token (shift a k n)).text = (ts.token n).text) :
    ts'.textBetween (shift a k i) (shift a k j) = ts.textBetween i j := by
  have hsize := h.size
  have hsize' := h.size'
  have hroom : shift a k j ≤ shift a k b + 1 := by
    unfold shift
    omega
  have hlength : shift a k j - shift a k i = j - i := by
    unfold shift
    omega
  have hle : shift a k i ≤ shift a k j := by
    unfold shift
    omega
  unfold Stream.textBetween
  rw [Nat.min_eq_left hij, Nat.min_eq_left hle, texts_extract (by omega), texts_extract (by omega),
    hlength]
  congr 1
  refine List.map_congr_left fun n hn => ?_
  rw [List.mem_range] at hn
  rw [← shift_add ha]
  exact hsame (i + n) (by omega) (by omega)

end

end

end Copies
end Stream

namespace Reading

variable {k : Token.Kind}

@[grind →]
theorem Takes.past_eq (h : ts.Takes i j) : ts.past i = j :=
  h.1

@[grind →]
theorem Reads.past_eq (h : ts.Reads k i j) : ts.past i = j :=
  h.2.1

@[grind →]
theorem ReadsWord.past_eq {word : String} (h : ts.ReadsWord word i j) : ts.past i = j :=
  h.1.2.1

@[grind →]
theorem MayRead.past_eq {b : Bool} (h : ts.MayRead k b i j) : i = j ∨ ts.past i = j := by
  cases h with
  | yes h => exact .inr h.past_eq
  | no => exact .inl rfl

@[grind →]
theorem MayName.past_eq {name : Option String} (h : ts.MayName name i j) :
    i = j ∨ ts.past i = j := by
  cases h with
  | yes h => exact .inr h.past_eq
  | no => exact .inl rfl

@[grind →]
theorem Closes.past_eq (h : ts.Closes i j) : i = j ∨ ts.past i = j := by
  cases h with
  | mark h => exact .inr h.past_eq
  | _ => exact .inl rfl

@[grind →]
theorem StringAt.past_le (h : ts.StringAt raw i j) : ts.past i ≤ j :=
  Nat.le_of_lt h.2.1.lt

@[grind →]
theorem RegexAt.past_le (h : ts.RegexAt pattern flags i j) : ts.past i ≤ j := by
  cases h with
  | slash _ hrest hflags | slashEq _ hrest hflags =>
    have hrest := hrest.le
    have hflags := hflags.le
    omega

theorem MethodStartAt.past_le [ts.Ended] (h : ts.MethodStartAt m i j) : i = j ∨ ts.past i ≤ j := by
  cases h with
  | named _ h | plain _ _ h => exact h.past_eq.imp_right Nat.le_of_eq
  | get _ h | set _ h => exact .inr (Nat.le_of_eq h.past_eq)
  | async _ h h' => exact .inr (h.past_eq ▸ h'.le)

@[grind →]
theorem StaticAt.past_eq {b : Bool} (h : ts.StaticAt b i j) : i = j ∨ ts.past i = j := by
  cases h with
  | yes h => exact .inr h.past_eq
  | no => exact .inl rfl

end Reading

/-- Phrases that are read token by token, white space too. -/
def Phrase.isRaw : Phrase → Bool
  | .templateRest _ => true
  | _ => false

attribute [grind →] Reading.MayRead.le Reading.MayName.le Reading.Closes.le
  Reading.MethodStartAt.le Reading.StaticAt.le
attribute [grind! .] Stream.lt_past
attribute [grind =] Phrase.isRaw Phrase.mayBeEmpty

theorem Derives.past_le [ts.Ended] (h : Derives ts H ph i j) :
    ph.isRaw = false → i = j ∨ ts.past i ≤ j := by
  induction h <;>
    simp only [Phrase.isRaw, Bool.true_eq_false, false_imp_iff, true_imp_iff] at * <;>
    grind -linarith [→ Derives.progress, → Reading.MethodStartAt.past_le]

/-- Words whose meaning depends on the token behind them. -/
def leads (k : Token.Kind) : Prop :=
  k = .identifier ∨ k = .keyword .kwAsync ∨ k = .keyword .kwStatic

@[grind →]
theorem Reading.Reads.kindAt_eq {k : Token.Kind} (h : ts.Reads k i j) : ts.kindAt i = k :=
  h.1

theorem Reading.StringAt.kindAt_eq (h : ts.StringAt raw i j) : ts.kindAt i = .stringQuote :=
  h.1

theorem Reading.MethodStartAt.second_le (h : ts.MethodStartAt m i j) :
    i = j ∨ ts.past i = j ∨ ts.past (ts.past i) ≤ j := by
  cases h with
  | named _ h | plain _ _ h => exact h.past_eq.imp_right .inl
  | get _ h | set _ h => exact .inr (.inl h.past_eq)
  | async _ h h' =>
    rw [h.past_eq]
    exact .inr (h'.past_eq.imp_right Nat.le_of_eq)

theorem Derives.second_le [ts.Ended] (h : Derives ts H ph i j) :
    ph.isRaw = false → leads (ts.kindAt i) → i = j ∨ ts.past i = j ∨ ts.past (ts.past i) ≤ j := by
  induction h <;>
    simp only [Phrase.isRaw, Bool.true_eq_false, false_imp_iff, true_imp_iff, leads] at * <;>
    grind -linarith [→ Derives.progress, → Derives.past_le, → Reading.MethodStartAt.second_le,
      → Reading.StringAt.kindAt_eq, → Reading.RegexAt.kindAt_eq]

namespace Stream.Copies

variable {rd : Reading} {a b k n : Nat} {kind : Token.Kind} (h : Copies rd ts' a b k)
include h

theorem takes (htakes : rd.Takes i j) (ha : a ≤ i) (hj : j ≤ b) :
    ts'.reading.Takes (shift a k i) (shift a k j) := by
  obtain ⟨rfl, -⟩ := htakes
  exact ⟨h.past ha (Nat.le_succ_of_le hj), trivial⟩

theorem reads (hreads : rd.Reads kind i j) (ha : a ≤ i) (hj : j ≤ b) :
    ts'.reading.Reads kind (shift a k i) (shift a k j) :=
  ⟨(h.kindAt ha (hreads.past_eq ▸ hj)).trans hreads.1, h.takes hreads.2 ha hj⟩

theorem readsWord {word : String} (hreads : rd.ReadsWord word i j) (ha : a ≤ i) (hj : j ≤ b) :
    ts'.reading.ReadsWord word (shift a k i) (shift a k j) :=
  ⟨h.reads hreads.1 ha hj, (h.textAt ha (hreads.past_eq ▸ hj)).trans hreads.2⟩

theorem le_of_past_le (hj : rd.past j ≤ b) : j ≤ b :=
  Nat.le_of_lt (Nat.lt_of_lt_of_le (h.lt_past _) hj)

theorem mayRead {given : Bool} (hreads : rd.MayRead kind given i j) (ha : a ≤ i)
    (hj : rd.past j ≤ b) : ts'.reading.MayRead kind given (shift a k i) (shift a k j) := by
  cases hreads with
  | yes hreads =>
    exact .yes (h.reads hreads ha (h.le_of_past_le hj))
  | no hk => exact .no (ne_of_eq_of_ne (h.kindAt ha hj) hk)

theorem mayName {name : Option String} (hreads : rd.MayName name i j) (ha : a ≤ i)
    (hj : rd.past j ≤ b) : ts'.reading.MayName name (shift a k i) (shift a k j) := by
  cases hreads with
  | yes hreads =>
    exact .yes (h.readsWord hreads ha (h.le_of_past_le hj))
  | no hk => exact .no (ne_of_eq_of_ne (h.kindAt ha hj) hk)

theorem closes (hcloses : rd.Closes i j) (ha : a ≤ i) (hj : rd.past j ≤ b) :
    ts'.reading.Closes (shift a k i) (shift a k j) := by
  cases hcloses with
  | mark hreads =>
    exact .mark (h.reads hreads ha (h.le_of_past_le hj))
  | brace hk => exact .brace ((h.kindAt ha hj).trans hk)
  | input hk => exact .input ((h.kindAt ha hj).trans hk)
  | line hk hbreaks =>
    exact .line (ne_of_eq_of_ne (h.kindAt ha hj) hk)
      ((h.breaksAt ha (Nat.le_succ_of_le hj)).trans hbreaks)

theorem stringAt (hstring : rd.StringAt raw i j) (ha : a ≤ i) (hj : j ≤ b) :
    ts'.reading.StringAt raw (shift a k i) (shift a k j) := by
  have hlt := hstring.2.1.lt
  have hle : a ≤ rd.past i := Nat.le_trans ha (Nat.le_of_lt (h.lt_past _))
  have hskip := h.skip ha (show rd.past i ≤ b + 1 by omega)
  obtain ⟨hk, hrest, htext, -⟩ := hstring
  refine ⟨(h.kindAt ha (by omega)).trans hk, ?_, ?_, trivial⟩
  · rw [h.textAt ha (by omega), h.past ha (by omega)]
    exact hrest.move (fun n hn hn' => h.lexeme n hn (by omega)) hle
  · rw [hskip, ← htext]
    exact h.textBetween (h.le_skip ha) (Nat.le_of_lt (Nat.lt_trans (Nat.lt_succ_self _) hlt))
      (by omega) fun n hn hn' => h.text (Nat.le_trans (h.le_skip ha) hn) (by omega)

theorem regexRest {inClass : Bool} (hrest : rd.RegexRest inClass i j) (ha : a ≤ i) (hj : j < b) :
    ts'.RegexRest inClass (shift a k i) (shift a k j) := by
  induction hrest with
  | close hk => exact .close ((h.kind ha hj).trans hk)
  | @escape _ i j hk hk₁ hk₂ hrest ih =>
    have hle := hrest.le
    have hnext := h.kind (show a ≤ i + 1 by omega) (by omega)
    rw [shift_add ha] at hnext
    exact .escape ((h.kind ha (by omega)).trans hk) (ne_of_eq_of_ne hnext hk₁)
      (ne_of_eq_of_ne hnext hk₂) (shift_add ha 2 ▸ ih (by omega) hj)
  | enter hk hrest ih =>
    have hle := hrest.le
    exact .enter ((h.kind ha (by omega)).trans hk) (shift_add ha 1 ▸ ih (by omega) hj)
  | leave hk hrest ih =>
    have hle := hrest.le
    exact .leave ((h.kind ha (by omega)).trans hk) (shift_add ha 1 ▸ ih (by omega) hj)
  | slash hk hrest ih =>
    have hle := hrest.le
    exact .slash ((h.kind ha (by omega)).trans hk) (shift_add ha 1 ▸ ih (by omega) hj)
  | @plain _ i j h₁ h₂ h₃ h₄ h₅ h₆ hrest ih =>
    have hle := hrest.le
    have hk := h.kind ha (show i < b by omega)
    exact .plain (ne_of_eq_of_ne hk h₁) (ne_of_eq_of_ne hk h₂) (ne_of_eq_of_ne hk h₃)
      (ne_of_eq_of_ne hk h₄) (ne_of_eq_of_ne hk h₅) (ne_of_eq_of_ne hk h₆)
      (shift_add ha 1 ▸ ih (by omega) hj)

theorem kind_ne (ha : a ≤ i) (hb : i ≤ b) (hkind : kind ≠ .punct .rBrace)
    (hne : (rd.token i).kind ≠ kind) : (ts'.token (shift a k i)).kind ≠ kind := by
  rcases Nat.eq_or_lt_of_le hb with rfl | hlt
  · rcases h.edge with hsame | ⟨_, hbrace⟩
    · exact ne_of_eq_of_ne (congrArg Lexeme.kind hsame) hne
    · rw [hbrace]
      exact hkind.symm
  · exact ne_of_eq_of_ne (h.kind ha hlt) hne

theorem flagsAt (hflags : rd.FlagsAt flags i j) (ha : a ≤ i) (hj : j ≤ b) :
    ts'.FlagsAt flags (shift a k i) (shift a k j) := by
  cases hflags with
  | some hk =>
    rw [← h.text ha hj, shift_add ha]
    exact .some ((h.kind ha hj).trans hk)
  | none hk => exact .none (h.kind_ne ha hj nofun hk)

theorem regexAt (hregex : rd.RegexAt pattern flags i j) (ha : a ≤ i) (hj : j ≤ b) :
    ts'.reading.RegexAt pattern flags (shift a k i) (shift a k j) := by
  have hle : a ≤ rd.past i := Nat.le_trans ha (Nat.le_of_lt (h.lt_past _))
  have hbody : ∀ {n}, rd.RegexRest false (rd.past i) n → rd.FlagsAt flags (n + 1) j →
      ts'.kindAt (shift a k i) = rd.kindAt i ∧
      ts'.RegexRest false (ts'.past (shift a k i)) (shift a k n) ∧
      ts'.FlagsAt flags (shift a k n + 1) (shift a k j) ∧
      ts'.textBetween (ts'.past (shift a k i)) (shift a k n) = rd.textBetween (rd.past i) n := by
    intro n hrest hflags
    have hle₁ := hrest.le
    have hle₂ := hflags.le
    rw [h.past ha (show rd.past i ≤ b + 1 by omega), ← shift_add (show a ≤ n by omega)]
    exact ⟨h.kindAt ha (by omega), h.regexRest hrest hle (by omega),
      h.flagsAt hflags (by omega) hj, h.textBetween hle hle₁ (by omega)
        fun m hm hm' => h.text (by omega) (by omega)⟩
  cases hregex with
  | slash hk hrest hflags =>
    obtain ⟨hkind, hrest', hflags', htext⟩ := hbody hrest hflags
    rw [← htext]
    exact .slash (hkind.trans hk) hrest' hflags' trivial
  | slashEq hk hrest hflags =>
    obtain ⟨hkind, hrest', hflags', htext⟩ := hbody hrest hflags
    rw [← htext]
    exact .slashEq (hkind.trans hk) hrest' hflags' trivial

theorem staticAt {given : Bool} (hstatic : rd.StaticAt given i j) (ha : a ≤ i) (hj : rd.past j ≤ b)
    (hsecond : leads (rd.kindAt i) → rd.past (rd.past i) ≤ b) :
    ts'.reading.StaticAt given (shift a k i) (shift a k j) := by
  cases hstatic with
  | yes hreads hk =>
    have := h.ended
    have hlt := hreads.lt
    have hlt' := h.lt_past j
    refine .yes (h.reads hreads ha (by omega)) ?_
    rw [h.kindAt (by omega) hj]
    exact hk
  | no hk =>
    refine .no fun hstatic => ?_
    rw [h.kindAt ha hj] at hstatic
    rw [h.past ha (by omega), h.kindAt (Nat.le_trans ha (Nat.le_of_lt (h.lt_past _)))
      (hsecond (.inr (.inr hstatic)))]
    exact hk hstatic

theorem methodStartAt (hstart : rd.MethodStartAt m i j) (ha : a ≤ i) (hj : rd.past j ≤ b)
    (hsecond : leads (rd.kindAt i) → rd.past (rd.past i) ≤ b) :
    ts'.reading.MethodStartAt m (shift a k i) (shift a k j) := by
  have hlt := h.lt_past j
  have hlt₀ := h.lt_past i
  have hi : rd.past i ≤ b := by
    have := h.ended
    rcases hstart.past_le with rfl | hle
    · exact hj
    · omega
  have hkind := h.kindAt ha hi
  have hfollows : leads (rd.kindAt i) →
      followsName (ts'.kindAt (ts'.past (shift a k i))) = followsName (rd.kindAt (rd.past i)) := by
    intro hlead
    rw [h.past ha (by omega), h.kindAt (by omega) (hsecond hlead)]
  cases hstart with
  | named hk hstar =>
    by_cases hlead : leads (rd.kindAt i)
    · exact .named ((hfollows hlead).trans hk) (h.mayRead hstar ha hj)
    · refine .plain (fun hword => ?_) (fun hasync => ?_) (h.mayRead hstar ha hj)
      · exact hlead (.inl (hkind.symm.trans hword.1))
      · exact hlead (.inr (.inl (hkind.symm.trans hasync)))
  | get hk hword =>
    exact .get ((hfollows (.inl hword.1.1)).trans hk) (h.readsWord hword ha (by omega))
  | set hk hword =>
    exact .set ((hfollows (.inl hword.1.1)).trans hk) (h.readsWord hword ha (by omega))
  | async hk hreads hstar =>
    have := h.ended
    have hle := hstar.le
    have hlt := hreads.lt
    exact .async ((hfollows (.inr (.inl hreads.1))).trans hk) (h.reads hreads ha (by omega))
      (h.mayRead hstar (by omega) hj)
  | plain hword hasync hstar =>
    refine .plain ?_ (hkind.trans_ne hasync) (h.mayRead hstar ha hj)
    rw [hkind, h.textAt ha hi]
    exact hword

/-- What the rules ask of the token behind an expression holds of a brace. -/
theorem kindAt_of (ha : a ≤ i) (hb : rd.past i ≤ b + 1) {p : Token.Kind → Prop}
    (hbrace : p (.punct .rBrace)) (hp : p (rd.kindAt i)) : p (ts'.kindAt (shift a k i)) := by
  rcases h.kindAt_edge ha hb with hk | hk
  · exact hk ▸ hp
  · exact hk ▸ hbrace

end Stream.Copies

theorem opensStatement_eq {first : Token.Kind} (h : ¬ leads first) (second second' : Token.Kind) :
    opensStatement first second = opensStatement first second' := by
  unfold opensStatement
  split
  · exact absurd (.inl rfl) h
  · rfl
  · rfl
  · exact absurd (.inr (.inl rfl)) h
  · rfl
  · rfl

theorem operandStops_congr {ts ts' : Stream} {j j' : Nat} (hk : ts'.kindAt j' = ts.kindAt j)
    (hbreaks : ts'.breaksAt j' = ts.breaksAt j) (e : Expr) :
    OperandStops ts' j' e ↔ OperandStops ts j e := by
  fun_induction OperandStops ts j e with
  | case1 _ _ arg ih | case2 _ arg ih | case3 _ _ arg ih | case5 _ _ _ arg ih =>
    rw [OperandStops]
    exact ih
  | case4 => rw [OperandStops]
  | case6 e h₁ h₂ h₃ h₄ h₅ =>
    rw [OperandStops.eq_6 _ _ _ h₁ h₂ h₃ h₄ h₅, hk, hbreaks]

theorem stops_congr {ts ts' : Stream} {j j' : Nat} (hk : ts'.kindAt j' = ts.kindAt j)
    (hbreaks : ts'.breaksAt j' = ts.breaksAt j) (noIn : Bool) (e : Expr) :
    Stops ts' noIn j' e ↔ Stops ts noIn j e := by
  fun_induction Stops ts noIn j e with
  | case1 | case2 => rw [Stops]
  | case3 _ _ _ value ih | case4 _ _ _ value ih | case5 _ _ value ih | case6 _ _ value ih =>
    rw [Stops]
    exact ih
  | case7 _ _ _ no ih => rw [Stops, ih, hk]
  | case8 e h₁ h₂ h₃ h₄ h₅ h₆ h₇ =>
    rw [Stops.eq_8 _ _ _ _ h₁ h₂ h₃ h₄ h₅ h₆ h₇, hk, operandStops_congr hk hbreaks]

namespace Stream.Copies

variable {rd : Reading} {a b k : Nat} (h : Copies rd ts' a b k)
include h

theorem opensStatement (ha : a ≤ i) (hb : rd.past i ≤ b)
    (hsecond : leads (rd.kindAt i) → rd.past (rd.past i) ≤ b) :
    Grammar.opensStatement (ts'.kindAt (shift a k i)) (ts'.kindAt (ts'.past (shift a k i))) =
      Grammar.opensStatement (rd.kindAt i) (rd.kindAt (rd.past i)) := by
  have hlt := h.lt_past i
  rw [h.kindAt ha hb]
  by_cases hlead : leads (rd.kindAt i)
  · rw [h.past ha (by omega), h.kindAt (by omega) (hsecond hlead)]
  · exact opensStatement_eq hlead _ _

theorem halts {noIn : Bool} (ha : a < j) (hb : rd.past j ≤ b)
    (hsecond : rd.kindAt j = .identifier → rd.past (rd.past j) ≤ b) (hhalts : Halts rd noIn j e) :
    Halts ts' noIn (shift a k j) e := by
  have hlt := h.lt_past j
  have hkind := h.kindAt (Nat.le_of_lt ha) hb
  have hbreaks := h.breaksAt (Nat.le_of_lt ha) (Nat.le_succ_of_le hb)
  refine ⟨(stops_congr hkind hbreaks noIn e).mpr hhalts.1, fun hname hasync harrow => ?_⟩
  have hprev : shift a k j - 1 = shift a k (j - 1) := by
    unfold shift
    omega
  rw [hprev, h.kind (by omega) (by omega)] at hasync
  refine hhalts.2 hname hasync ?_
  obtain ⟨hword, harrow⟩ := harrow
  rw [hkind] at hword
  have hle := hsecond hword
  rw [h.past (Nat.le_of_lt ha) (by omega), h.kindAt (by omega) hle,
    h.breaksAt (by omega) (by omega)] at harrow
  exact ⟨hword, harrow⟩

theorem sequenceStops {noIn : Bool} (ha : a < j) (hb : rd.past j ≤ b)
    (hsecond : rd.kindAt j = .identifier → rd.past (rd.past j) ≤ b)
    (hstops : SequenceStops rd (Halts rd) noIn j e) :
    SequenceStops ts' (Halts ts') noIn (shift a k j) e := by
  have hkind := h.kindAt (Nat.le_of_lt ha) hb
  cases e with
  | sequence =>
    exact ⟨hkind.trans_ne hstops.1, fun e he => h.halts ha hb hsecond (hstops.2 e he)⟩
  | _ => exact ⟨hkind.trans_ne hstops.1, h.halts ha hb hsecond hstops.2⟩

end Stream.Copies

/-- The tokens that the rules for a phrase look at stand before a position. -/
@[simp]
def Inside (ts : Stream) (b : Nat) : Phrase → Nat → Prop
  | .expr _ _, j | .others _ _, j => ts.past j ≤ b + 1
  | .template _ _, j | .templateRest _, j => j ≤ b + 1
  | .value _ _, j | .item _ _ _, j | .member _ _, j | .decl _ _, j | .decls _ _, j
  | .stmt _ _, j | .stmts _ _ _, j | .exported _ _, j | .forInit _ _, j | .optional _ _, j
  | .parent _ _, j | .case _ _, j | .importClause _, j =>
    ts.past j ≤ b ∧ (ts.kindAt j = .identifier → ts.past (ts.past j) ≤ b)
  | _, j => j ≤ b

@[grind →]
theorem Derives.first_le [ts.Ended] (h : Derives ts H ph i j) :
    i = j ∧ ph.mayBeEmpty = true ∨ i < j ∧ (ts.past i ≤ j ∨ ph.isRaw = true) := by
  rcases h.progress with hlt | hempty
  · refine .inr ⟨hlt, ?_⟩
    cases hraw : ph.isRaw with
    | true => exact .inr rfl
    | false => exact .inl ((h.past_le hraw).resolve_left (Nat.ne_of_lt hlt))
  · exact .inl hempty

theorem Derives.quote (h : Derives ts H ph i j) :
    ph.isRaw = true → (ts.token (j - 1)).kind = .templateQuote := by
  induction h with
  | templateClose hk => exact fun _ => hk
  | templateEscape _ _ _ _ ih | templatePlain _ _ _ _ _ ih => exact ih
  | templateEscapeThen _ _ _ _ _ _ _ _ ih | templateThen _ _ _ _ _ _ ih => exact ih
  | _ => exact nofun

theorem Stream.Copies.same {rd : Reading} {a b k i j d : Nat} (h : rd.Copies ts' a b k)
    (hj : j ≤ b + 1) (hquote : (rd.token (j - 1)).kind = .templateQuote) (ha : a ≤ i)
    (hd : i + d < j) :
    (ts'.token (Stream.shift a k i + d)).kind = (rd.token (i + d)).kind ∧
      (ts'.token (Stream.shift a k i + d)).text = (rd.token (i + d)).text := by
  rw [← Stream.shift_add ha]
  rcases Nat.lt_or_ge (i + d) b with hlt | hge
  · exact ⟨h.kind (by omega) hlt, h.text (by omega) hlt⟩
  · obtain rfl : i + d = b := by omega
    rcases h.edge with hsame | ⟨hparen, _⟩
    · exact ⟨congrArg Lexeme.kind hsame, congrArg Lexeme.text hsame⟩
    · obtain rfl : j = i + d + 1 := by omega
      rw [Nat.add_sub_cancel, hparen] at hquote
      cases hquote

theorem Derives.members_second {ms : List ClassMember} (h : Derives ts H (.members cx ms) i j)
    [ts.Ended] (hk : ts.kindAt i = .identifier) : ts.past (ts.past i) ≤ j := by
  have hsecond := h.second_le rfl (.inl hk)
  cases h with
  | noMembers hreads => cases hreads.1.symm.trans hk
  | skipMember hreads => cases hreads.1.symm.trans hk
  | moreMembers hmember hmembers =>
    have hlt := hmember.lt rfl
    have hlt' := hmembers.lt rfl
    have hle := hmember.past_le rfl
    omega

theorem Derives.cases_kindAt {cs : List SwitchCase} (h : Derives ts H (.cases cx cs) i j) :
    ts.kindAt i ≠ .identifier := by
  cases h with
  | noCases hreads => exact hreads.1.trans_ne nofun
  | moreCases hcase _ =>
    cases hcase with
    | testCase hreads | defaultCase hreads => exact hreads.1.trans_ne nofun

theorem Derives.others_kind {es : List Expr} (h : Derives ts H (.others cx es) i j) :
    ts.kindAt i = .punct .comma := by
  cases h with
  | other hcomma | moreOthers hcomma => exact hcomma.1

/-!
# Moving phrases

A phrase of the range is spelled in the copy by the same rule.
-/

/-- A phrase of the range that is copied is spelled in the copy too. -/
def Moves (rd : Reading) (ts' : Stream) (a b k : Nat) (ph : Phrase) (i j : Nat) : Prop :=
  a ≤ i → Inside rd b ph j →
    Spells ts'.reading ph (Stream.shift a k i) (Stream.shift a k j)

section
variable {rd : Reading} {a b k i₁ i₂ i₃ i₄ : Nat} (hc : rd.Copies ts' a b k)
include hc

/-! What stands in front of a key is told from the key by the token behind it, so the
second token has to be copied as well. -/

theorem Moves.method {sp sp' : Span} {kind : MethodKind} {isStatic isAsync isGenerator : Bool}
    {params : List Param} {body : List Stmt} (hstatic : rd.StaticAt isStatic i i₁)
    (hstart : rd.MethodStartAt ⟨kind, isAsync, isGenerator⟩ i₁ i₂)
    (hkey : Spells rd (.key cx key) i₂ i₃)
    (hcallable : Spells rd (.callable (Context.function isAsync isGenerator) params body) i₃ j)
    (hsp' : rd.spans i j sp') (hsp : rd.spans i j sp) (ih : Moves rd ts' a b k (.key cx key) i₂ i₃)
    (ih' : Moves rd ts' a b k (.callable (Context.function isAsync isGenerator) params body) i₃ j) :
    Moves rd ts' a b k
      (.member cx (.method sp kind isStatic key ⟨sp', none, isAsync, isGenerator, params, body⟩)) i
      j := by
  intro ha hj
  have := hc.ended
  have hsecond := Derives.second_le (.method hstatic hstart hkey hcallable hsp' hsp) rfl
  have hstart₁ := hstart.second_le
  have hstart₂ := hstart.past_le
  have hkey₁ := hkey.second_le rfl
  simp only [Moves, Inside] at hj ih ih'
  refine .method (hc.staticAt hstatic ha ?_ ?_) (hc.methodStartAt hstart ?_ ?_ ?_) (ih ?_ ?_)
    (ih' ?_ ?_) trivial trivial <;> grind -linarith

theorem Moves.field {isStatic : Bool} {v : Option Expr} (hstatic : rd.StaticAt isStatic i i₁)
    (hstart : rd.MethodStartAt ⟨.method, false, false⟩ i₁ i₂) (hkey : Spells rd (.key cx key) i₂ i₃)
    (hparen : rd.kindAt i₃ ≠ .punct .lParen) (hvalue : Spells rd (.value cx v) i₃ i₄)
    (hcloses : rd.Closes i₄ j) (hsp : rd.spans i j sp) (ih : Moves rd ts' a b k (.key cx key) i₂ i₃)
    (ih' : Moves rd ts' a b k (.value cx v) i₃ i₄) :
    Moves rd ts' a b k (.member cx (.field sp isStatic key v)) i j := by
  intro ha hj
  have := hc.ended
  have hsecond := Derives.second_le (.field hstatic hstart hkey hparen hvalue hcloses hsp) rfl
  have hstart₁ := hstart.second_le
  have hstart₂ := hstart.past_le
  have hkey₁ := hkey.second_le rfl
  simp only [Moves, Inside] at hj ih ih'
  refine .field (hc.staticAt hstatic ha (by grind -linarith) (by grind -linarith))
    (hc.methodStartAt hstart (by grind -linarith) (by grind -linarith) (by grind -linarith))
    (ih (by grind -linarith) (by grind -linarith)) ?_
    (ih' (by grind -linarith) (by grind -linarith))
    (hc.closes hcloses (by grind -linarith) (by grind -linarith)) trivial
  rw [hc.kindAt (by grind -linarith) (by grind -linarith)]
  exact hparen

end

theorem Derives.move {rd : Reading} {a b k i j : Nat} (h : Spells rd ph i j)
    (hc : rd.Copies ts' a b k) : Moves rd ts' a b k ph i j := by
  have := hc.ended
  induction h with intro ha hj
  | @number _ _ _ i j hreads htext hname hnumber =>
    have hlt := hreads.lt
    have hlt' := hc.lt_past j
    have hle : rd.past j ≤ b + 1 := hj
    exact .number (hc.reads hreads ha (by omega))
      (by rw [hc.textAt ha (by rw [hreads.past_eq]; omega)]; exact htext)
      (hc.kind_ne (by omega) (by omega) nofun hname)
      (hc.kind_ne (by omega) (by omega) nofun hnumber) trivial
  | asyncIdent hreads htext hk =>
    have hle : rd.past _ ≤ b + 1 := hj
    exact .asyncIdent (hc.reads hreads ha (by grind -linarith))
      (by rw [hc.textAt ha (by grind -linarith)]; exact htext)
      (hc.kindAt_of (by grind -linarith) hj (p := (· ≠ .keyword .kwFunction)) nofun hk) trivial
  | newBare hreads _ hcallee htail _ ih =>
    have hle : rd.past _ ≤ b + 1 := hj
    refine .newBare (hc.reads hreads ha ?_) (ih ?_ hj) hcallee
      (hc.kindAt_of ?_ hj (p := (startsTail · = false)) rfl htail) trivial <;> grind -linarith
  | yieldNothing hreads hcx hends =>
    have hle : rd.past _ ≤ b + 1 := hj
    refine .yieldNothing (hc.reads hreads ha (by grind -linarith)) hcx ?_ trivial
    rcases hends with hbreaks | hends
    · exact .inl ((hc.breaksAt (by grind -linarith) hj).trans hbreaks)
    · exact .inr (hc.kindAt_of (by grind -linarith) hj (p := (endsYield · = true)) rfl hends)
  | hole hx hreads _ ih =>
    have hle : _ ≤ b := hj
    exact .hole hx (hc.reads hreads ha (by grind -linarith)) (ih (by grind -linarith) hj)
  | moreItems _ hreads _ ih ih' =>
    have hle : _ ≤ b := hj
    exact .moreItems (ih ha (by simp only [Inside]; grind -linarith))
      (hc.reads hreads (by grind -linarith) (by grind -linarith)) (ih' (by grind -linarith) hj)
  | lastItem _ hreads ih =>
    have hle : _ ≤ b := hj
    exact .lastItem (ih ha (by simp only [Inside]; grind -linarith))
      (hc.reads hreads (by grind -linarith) (by grind -linarith))
  | asyncFunc hf hreads _ _ ih =>
    have hle : _ ≤ b := hj
    exact .asyncFunc hf (hc.reads hreads ha (by grind -linarith)) (ih (by grind -linarith) hj)
      (.inl trivial)
  | @template _ _ i j hk hrest htext _ ih =>
    have hlt := hrest.lt rfl
    have hpast := hc.lt_past i
    have hle : j ≤ b + 1 := hj
    refine .template ((hc.kindAt ha (by omega)).trans hk) ?_ ?_ trivial
    · rw [hc.past ha (by omega)]
      exact ih (by omega) hj
    · rw [hc.skip ha (by omega), ← htext]
      refine hc.textBetween (hc.le_skip ha) (Nat.le_of_lt (Nat.lt_trans (Nat.lt_succ_self _) hlt))
        hj fun n hn hn' => (hc.same (d := 0) hj (hrest.quote rfl) ?_ hn').2
      exact Nat.le_trans (hc.le_skip ha) hn
  | templateClose hk =>
    rw [Stream.shift_add ha]
    exact .templateClose ((hc.same (d := 0) hj hk ha (Nat.lt_succ_self _)).1.trans hk)
  | @templateEscape _ i j hk hend hno hrest ih =>
    have hlt := hrest.lt rfl
    have hsame : ∀ {d}, i + d < j → _ := fun {d} => hc.same (d := d) hj (hrest.quote rfl) ha
    obtain ⟨hk₁, htext⟩ := hsame (d := 1) (by omega)
    have hrest' := ih (by omega) hj
    rw [Stream.shift_add ha] at hrest'
    refine .templateEscape ((hsame (d := 0) (by omega)).1.trans hk) (hk₁.trans_ne hend)
      (fun hword => hno ?_) hrest'
    rwa [Token.endsWith, hk₁, htext, (hsame (d := 2) (by omega)).1] at hword
  | @templateEscapeThen _ i i₁ j hk hname hlong hdollar hbrace hsub hrest ih ih' =>
    have hle : j ≤ b + 1 := hj
    have hlt := hrest.lt rfl
    have hlt' := hsub.lt rfl
    have hsame : ∀ {d}, i + d < j → _ := fun {d} => hc.same (d := d) hj (hrest.quote rfl) ha
    obtain ⟨hk₁, htext⟩ := hsame (d := 1) (by omega)
    have hsub' := ih (by omega) (show i₁ ≤ b by omega)
    rw [Stream.shift_add ha] at hsub'
    refine .templateEscapeThen ((hsame (d := 0) (by omega)).1.trans hk) (hk₁.trans hname)
      (htext ▸ hlong) ?_ ((hsame (d := 2) (by omega)).1.trans hbrace) hsub' (ih' (by omega) hj)
    rw [Token.endsWith, htext]
    exact hdollar
  | @templateThen _ i i₁ j hname hdollar hbrace hsub hrest ih ih' =>
    have hle : j ≤ b + 1 := hj
    have hlt := hrest.lt rfl
    have hlt' := hsub.lt rfl
    have hsame : ∀ {d}, i + d < j → _ := fun {d} => hc.same (d := d) hj (hrest.quote rfl) ha
    obtain ⟨hk₀, htext⟩ : (ts'.token (Stream.shift a k i)).kind = _ ∧
        (ts'.token (Stream.shift a k i)).text = _ := hsame (d := 0) (by omega)
    have hsub' := ih (by omega) (show i₁ ≤ b by omega)
    rw [Stream.shift_add ha] at hsub'
    refine .templateThen (hk₀.trans hname) ?_ ((hsame (d := 1) (by omega)).1.trans hbrace) hsub'
      (ih' (by omega) hj)
    rw [Token.endsWith, htext]
    exact hdollar
  | @templatePlain _ i j hend hescape hquote hno hrest ih =>
    have hlt := hrest.lt rfl
    have hsame : ∀ {d}, i + d < j → _ := fun {d} => hc.same (d := d) hj (hrest.quote rfl) ha
    obtain ⟨hk₀, htext⟩ : (ts'.token (Stream.shift a k i)).kind = _ ∧
        (ts'.token (Stream.shift a k i)).text = _ := hsame (d := 0) (by omega)
    have hrest' := ih (by omega) hj
    rw [Stream.shift_add ha] at hrest'
    refine .templatePlain (hk₀.trans_ne hend) (hk₀.trans_ne hescape) (hk₀.trans_ne hquote)
      (fun hword => hno ?_) hrest'
    rwa [Token.endsWith, hk₀, htext, (hsame (d := 1) (by omega)).1] at hword
  | funcRest hfunction hstar hname _ ih =>
    have hle : _ ≤ b := hj
    refine .funcRest (hc.reads hfunction ha ?_) (hc.mayRead hstar ?_ ?_) (hc.mayName hname ?_ ?_)
      (ih ?_ hj) <;> grind -linarith
  | methodProperty hstart hkey hcallable hsp ih ih' =>
    have hsecond := Derives.second_le (.methodProperty hstart hkey hcallable hsp) rfl
    simp only [Moves, Inside] at hj ih ih'
    refine .methodProperty (hc.methodStartAt hstart ha ?_ ?_) (ih ?_ ?_) (ih' ?_ ?_) trivial <;>
      grind -linarith
  | pair hstart hkey hcolon hvalue hlevel ih ih' =>
    have hsecond := Derives.second_le (.pair hstart hkey hcolon hvalue hlevel) rfl
    simp only [Moves, Inside] at hj ih ih'
    refine .pair (hc.methodStartAt hstart ha ?_ ?_) (ih ?_ ?_) (hc.reads hcolon ?_ ?_) (ih' ?_ ?_)
      hlevel <;> grind -linarith
  | @shorthand _ _ i j hstart hname hparen hcolon =>
    simp only [Inside] at hj
    have hkind := hc.kindAt (show a ≤ j by grind -linarith) hj.1
    refine .shorthand (hc.methodStartAt hstart ha ?_ ?_) (hc.readsWord hname ha ?_)
      (hkind.trans_ne hparen) (hkind.trans_ne hcolon) <;> grind -linarith
  | method hstatic hstart hkey hcallable hsp' hsp ih ih' =>
    exact Moves.method hc hstatic hstart hkey hcallable hsp' hsp ih ih' ha hj
  | field hstatic hstart hkey hparen hvalue hcloses hsp ih ih' =>
    exact Moves.field hc hstatic hstart hkey hparen hvalue hcloses hsp ih ih' ha hj
  | moreMembers hmember hmembers ih ih' =>
    have hsecond := hmembers.members_second
    simp only [Moves, Inside] at hj ih ih'
    exact .moreMembers (ih ha (by grind -linarith)) (ih' (by grind -linarith) hj)
  | moreStmts hstop hstmt hstmts ih ih' =>
    have hsecond := Derives.second_le hstmts rfl
    simp only [Moves, Inside] at hj ih ih'
    refine .moreStmts ?_ (ih ha (by grind -linarith [leads])) (ih' (by grind -linarith) hj)
    rw [hc.kindAt ha (by grind -linarith)]
    exact hstop
  | exprStmt hopens hexpr hstops hcloses _ ih =>
    have hsecond := hexpr.second_le rfl
    simp only [Moves, Inside] at hj ih
    refine .exprStmt ((hc.opensStatement ha ?_ ?_).trans hopens) (ih ha ?_)
      (hc.sequenceStops ?_ ?_ ?_ hstops) (hc.closes hcloses ?_ ?_) trivial <;> grind -linarith
  | moreCases hcase hcases ih ih' =>
    have hk := hcases.cases_kindAt
    simp only [Moves, Inside] at hj ih ih'
    exact .moreCases (ih ha (by grind -linarith)) (ih' (by grind -linarith) hj)
  | @exportedValue _ _ i _ _ hf hclass hasync hexpr hlevel hhalts hcloses ih =>
    have hsecond := hexpr.second_le rfl
    simp only [Moves, Inside] at hj ih
    have hkind := hc.kindAt ha (show rd.past i ≤ b by grind -linarith)
    refine .exportedValue (hkind.trans_ne hf) (hkind.trans_ne hclass) (fun hword => ?_)
      (ih ha (by grind -linarith)) hlevel
      (hc.halts (by grind -linarith) (by grind -linarith) (by grind -linarith) hhalts)
      (hc.closes hcloses (by grind -linarith) (by grind -linarith))
    have hlead := hkind.symm.trans hword.1
    have hfunction := hword.2
    rw [hc.past ha (by grind -linarith),
      hc.kindAt (by grind -linarith) (by grind -linarith [leads])] at hfunction
    exact hasync ⟨hlead, hfunction⟩
  | _ =>
    -- Each premise is moved by the lemma for its kind; what is left are bounds.
    simp only [Moves, Inside] at *
    (constructor <;> first
      | with_reducible assumption
      | with_reducible exact trivial
      | with_reducible refine (by assumption : _ → _ → Derives _ _ _ _ _) ?_ ?_
      | with_reducible refine hc.reads (by assumption) ?_ ?_
      | with_reducible refine hc.readsWord (by assumption) ?_ ?_
      | with_reducible refine hc.takes (by assumption) ?_ ?_
      | with_reducible refine hc.stringAt (by assumption) ?_ ?_
      | with_reducible refine hc.regexAt (by assumption) ?_ ?_
      | with_reducible refine hc.closes (by assumption) ?_ ?_
      | with_reducible refine hc.mayRead (by assumption) ?_ ?_
      | with_reducible refine hc.mayName (by assumption) ?_ ?_
      | with_reducible refine hc.halts ?_ ?_ ?_ (by assumption)
      | with_reducible refine hc.sequenceStops ?_ ?_ ?_ (by assumption)
      | (rw [hc.kindAt]; · with_reducible assumption)
      | (rw [hc.textAt]; · with_reducible assumption)
      | (rw [hc.breaksAt]; · with_reducible assumption)
      | (rw [hc.kindAt, hc.textAt]; · with_reducible assumption)) <;>
      first | assumption | grind -linarith -ring

end Grammar
end ScriptBundler
