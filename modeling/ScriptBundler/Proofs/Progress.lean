import ScriptBundler.Proofs.Spelling

/-!
# Phrases take up tokens

Every phrase ends behind where it starts, except for the few that may be left
out.  The end of the input is no part of a phrase.
-/

namespace ScriptBundler
namespace Grammar

open Grammar.Parser

variable {ts : Reading} {H : Ending} {ph : Phrase} {i j : Nat}

namespace Stream

/-- The last token is the end of the input. -/
class Ended (ts : Stream) : Prop where
  nonempty : 0 < ts.tokens.size
  last : (ts.token (ts.tokens.size - 1)).kind = .endOfInput

variable {ts : Stream} {left : Nat} {k : Token.Kind}

theorem le_lineCommentEnd : i ≤ ts.lineCommentEnd left i := by
  induction left generalizing i with
  | zero => exact Nat.le_refl i
  | succ left ih =>
    unfold lineCommentEnd
    split
    · exact Nat.le_refl i
    · exact Nat.le_refl i
    · exact Nat.le_trans (Nat.le_succ i) ih

theorem le_blockCommentEndFrom {afterStar crossed : Bool} :
    i ≤ (ts.blockCommentEndFrom left i afterStar crossed).1 := by
  induction left generalizing i afterStar crossed with
  | zero => exact Nat.le_refl i
  | succ left ih =>
    unfold blockCommentEndFrom
    dsimp only
    split
    · exact Nat.le_refl i
    · split
      · exact Nat.le_succ i
      · exact Nat.le_trans (Nat.le_succ i) ih
    · exact Nat.le_trans (Nat.le_succ i) ih
    · exact Nat.le_trans (Nat.le_succ i) ih

theorem lt_of_trivium? {next : Nat} {breaks : Bool} (h : ts.trivium? i = some (next, breaks)) :
    i < next := by
  unfold trivium? at h
  split at h
  · cases h
    exact Nat.lt_succ_self i
  · cases h
    exact Nat.lt_succ_self i
  · dsimp only at h
    split at h
    · cases h
      exact Nat.lt_of_lt_of_le (Nat.lt_add_of_pos_right (by decide)) le_lineCommentEnd
    · cases h
      exact Nat.lt_of_lt_of_le (Nat.lt_add_of_pos_right (by decide)) le_lineCommentEnd
    · split at h
      · injection h with h
        have hle : i + 1 + 1 ≤ (ts.blockCommentEnd (i + 1)).1 := le_blockCommentEndFrom
        rw [h] at hle
        omega
      · cases h
  · cases h

theorem skipFrom_bounds {crossed : Bool} (hi : i < ts.tokens.size) :
    i ≤ (ts.skipFrom left i crossed).1 ∧ (ts.skipFrom left i crossed).1 < ts.tokens.size := by
  induction left generalizing i crossed with
  | zero => exact ⟨Nat.le_refl i, hi⟩
  | succ left ih =>
    unfold skipFrom
    split
    · exact ⟨Nat.le_refl i, hi⟩
    · rename_i next breaks heq
      have hlt := lt_of_trivium? heq
      split
      · rename_i hnext
        have hrest := @ih next (crossed || breaks) hnext
        exact ⟨Nat.le_trans (Nat.le_of_lt hlt) hrest.1, hrest.2⟩
      · exact ⟨by dsimp only; omega, by dsimp only; omega⟩

theorem past_lt [hts : ts.Ended] (hi : i < ts.tokens.size)
    (hk : ts.kindAt i ≠ .endOfInput) : ts.past i < ts.tokens.size := by
  have hlt : (ts.skip i).1 < ts.tokens.size := (skipFrom_bounds hi).2
  have hne : (ts.skip i).1 ≠ ts.tokens.size - 1 := by
    intro heq
    apply hk
    unfold kindAt nextAt
    rw [heq]
    exact hts.last
  unfold past
  omega

theorem succ_lt [hts : ts.Ended] (hi : i < ts.tokens.size)
    (hk : (ts.token i).kind ≠ .endOfInput) : i + 1 < ts.tokens.size := by
  have hne : i ≠ ts.tokens.size - 1 := by
    intro heq
    apply hk
    rw [heq]
    exact hts.last
  omega

theorem token_of_size_le (h : ts.tokens.size ≤ i) : ts.token i = ts.token (ts.tokens.size - 1) := by
  unfold token
  rw [Array.getElem?_eq_none h, Array.back?_eq_getElem?]
  cases ts.tokens[ts.tokens.size - 1]? <;> rfl

theorem kind_of_size_le [hts : ts.Ended] (hi : ts.tokens.size ≤ i) :
    (ts.token i).kind = .endOfInput := by
  rw [token_of_size_le hi]
  exact hts.last

theorem trivium?_of_size_le [ts.Ended] (hi : ts.tokens.size ≤ i) : ts.trivium? i = none := by
  unfold trivium?
  rw [kind_of_size_le hi]

theorem lt_past [ts.Ended] : i < ts.past i := by
  by_cases hi : i < ts.tokens.size
  · exact Nat.lt_succ_of_le (skipFrom_bounds hi).1
  · have hskip : ts.skip i = (i, false) := by
      unfold skip skipFrom
      rw [trivium?_of_size_le (Nat.le_of_not_lt hi)]
    unfold past
    rw [hskip]
    exact Nat.lt_succ_self i

theorem StringRest.lt {quote : String} (h : ts.StringRest quote i j) : i < j := by
  induction h <;> omega

theorem StringRest.last {quote : String} (h : ts.StringRest quote i j) :
    (ts.token (j - 1)).kind = .stringQuote := by
  induction h with
  | close hk => exact hk
  | quoted _ _ _ ih | escape _ _ _ ih | plain _ _ _ _ _ ih => exact ih

theorem RegexRest.le {inClass : Bool} (h : ts.RegexRest inClass i j) : i ≤ j := by
  induction h <;> omega

theorem FlagsAt.le {flags : String} (h : ts.FlagsAt flags i j) : i ≤ j := by
  cases h <;> omega

end Stream

namespace Reading

variable {k : Token.Kind}

theorem Takes.lt [ts.Ended] (h : ts.Takes i j) : i < j :=
  h.1 ▸ ts.lt_past

theorem Reads.lt [ts.Ended] (h : ts.Reads k i j) : i < j :=
  h.2.lt

theorem ReadsWord.lt {word : String} [ts.Ended] (h : ts.ReadsWord word i j) : i < j :=
  h.1.lt

theorem MayRead.le {b : Bool} [ts.Ended] (h : ts.MayRead k b i j) : i ≤ j := by
  cases h with
  | yes h => exact Nat.le_of_lt h.lt
  | no => exact Nat.le_refl i

theorem MayRead.eq_of_false (h : ts.MayRead k false i j) : j = i := by
  cases h
  rfl

theorem MayName.le {name : Option String} [ts.Ended] (h : ts.MayName name i j) : i ≤ j := by
  cases h with
  | yes h => exact Nat.le_of_lt h.lt
  | no => exact Nat.le_refl i

theorem Closes.le [ts.Ended] (h : ts.Closes i j) : i ≤ j := by
  cases h with
  | mark h => exact Nat.le_of_lt h.lt
  | _ => exact Nat.le_refl i

theorem StringAt.lt {raw : String} [ts.Ended] (h : ts.StringAt raw i j) : i < j :=
  Nat.lt_trans ts.lt_past h.2.1.lt

theorem RegexAt.lt {pattern flags : String} [ts.Ended] (h : ts.RegexAt pattern flags i j) :
    i < j := by
  cases h with
  | slash _ hrest hflags | slashEq _ hrest hflags =>
    have hopen := ts.lt_past (i := i)
    have hrest := hrest.le
    have hflags := hflags.le
    omega

theorem MethodStartAt.le {m : MethodStart} [ts.Ended] (h : ts.MethodStartAt m i j) : i ≤ j := by
  cases h with
  | named _ h => exact h.le
  | get _ h => exact Nat.le_of_lt h.lt
  | set _ h => exact Nat.le_of_lt h.lt
  | async _ h h' => exact Nat.le_trans (Nat.le_of_lt h.lt) h'.le
  | plain _ _ h => exact h.le

theorem StaticAt.le {b : Bool} [ts.Ended] (h : ts.StaticAt b i j) : i ≤ j := by
  cases h with
  | yes h => exact Nat.le_of_lt h.lt
  | no => exact Nat.le_refl i

end Reading

/-- Phrases that take up no token when what they hold is left out. -/
def Phrase.mayBeEmpty : Phrase → Bool
  | .value _ _ | .parent _ _ | .optional _ _ | .stmts _ _ _ | .forInit _ _ => true
  | _ => false

theorem Derives.progress [ts.Ended] (h : Derives ts H ph i j) :
    i < j ∨ i = j ∧ ph.mayBeEmpty = true := by
  induction h <;>
    simp only [Phrase.mayBeEmpty, Bool.false_eq_true, and_false, or_false, and_true] at * <;>
    grind -linarith [→ Reading.Takes.lt, → Reading.Reads.lt, → Reading.ReadsWord.lt,
      → Reading.MayRead.le, → Reading.MayName.le, → Reading.Closes.le, → Reading.StringAt.lt,
      → Reading.RegexAt.lt, → Reading.MethodStartAt.le, → Reading.StaticAt.le, Stream.lt_past]

theorem Derives.le [ts.Ended] (h : Derives ts H ph i j) : i ≤ j := by
  rcases h.progress with hlt | ⟨heq, _⟩
  · exact Nat.le_of_lt hlt
  · exact Nat.le_of_eq heq

theorem Derives.lt [ts.Ended] (h : Derives ts H ph i j) (hph : ph.mayBeEmpty = false) : i < j := by
  rcases h.progress with hlt | ⟨_, hempty⟩
  · exact hlt
  · rw [hph] at hempty
    cases hempty

end Grammar
end ScriptBundler
