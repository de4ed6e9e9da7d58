import ScriptBundler.Proofs.Layout
import ScriptBundler.Proofs.Progress

/-!
# Streams of lexemes

The tokens of a text are its lexemes with their places, and one more for the
end.  Two facts about a text carry over to its tokens: a token can be cut out
and stays the same token, and so do the tokens of a literal.  On the other side
stand streams that were printed: their tokens are those of marks, with nothing
but blanks between them.
-/

namespace ScriptBundler

namespace Token

def lexeme (t : Token) : Lexeme :=
  ⟨t.kind, t.text⟩

def endLexeme : Lexeme :=
  ⟨.endOfInput, ""⟩

theorem foldl_append_lexemes (ls : List Lexeme) (placed : Place × Array Token) :
    (ls.foldl append placed).2.toList.map lexeme = placed.2.toList.map lexeme ++ ls := by
  induction ls generalizing placed with
  | nil => simp
  | cons l ls ih =>
    rw [List.foldl_cons, ih]
    simp [append, locate, lexeme]

theorem lex_lexemes (source : String) :
    (lex source).toList.map lexeme = Lexeme.lexemes source.toList ++ [endLexeme] := by
  have hfold := foldl_append_lexemes (Lexeme.lexemes source.toList) (Place.start, #[])
  rw [Array.toList_empty, List.map_nil, List.nil_append] at hfold
  unfold lex
  rw [Lexeme.split_eq, List.foldl_toArray]
  simp only [Array.toList_push, List.map_append, hfold]
  rfl

end Token

namespace Grammar
namespace Stream

/-- The tokens of a stream are lexemes with an end behind them. -/
def Holds (ts : Stream) (ls : List Lexeme) : Prop :=
  ts.tokens.toList.map Token.lexeme = ls ++ [Token.endLexeme]

section
variable {ts : Stream} {ls : List Lexeme} {i j : Nat}

theorem holds_lex (source : String) (remembers : Bool) :
    Holds ⟨Token.lex source, remembers⟩ (Lexeme.lexemes source.toList) :=
  Token.lex_lexemes source

theorem Holds.size (h : ts.Holds ls) : ts.tokens.size = ls.length + 1 := by
  have hlength := congrArg List.length h
  rw [List.length_map, List.length_append, List.length_singleton] at hlength
  exact hlength

theorem Holds.lexeme_token (h : ts.Holds ls) (hi : i < ts.tokens.size) :
    (ls ++ [Token.endLexeme])[i]? = some (ts.token i).lexeme := by
  rw [← show _ = _ from h, List.getElem?_map, Array.getElem?_toList, token,
    Array.getElem?_eq_getElem hi]
  rfl

theorem Holds.getElem? (h : ts.Holds ls) (hi : i < ls.length) :
    ls[i]? = some (ts.token i).lexeme := by
  rw [← h.lexeme_token (by rw [h.size]; omega), List.getElem?_append_left hi]

theorem Holds.ended (h : ts.Holds ls) : ts.Ended := by
  have hsize := h.size
  refine ⟨by omega, ?_⟩
  have hlast := h.lexeme_token (i := ts.tokens.size - 1) (by omega)
  rw [hsize, Nat.add_sub_cancel, List.getElem?_append_right (Nat.le_refl _), Nat.sub_self] at hlast
  rw [hsize, Nat.add_sub_cancel]
  exact (congrArg Lexeme.kind (Option.some.inj hlast)).symm

theorem Holds.lt_length (h : ts.Holds ls) (hk : (ts.token i).kind ≠ .endOfInput) :
    i < ls.length := by
  have hsize := h.size
  have := h.ended
  rcases Nat.lt_or_ge i ts.tokens.size with hi | hi
  · have hnext := succ_lt hi hk
    omega
  · exact absurd (kind_of_size_le hi) hk

def between (ts : Stream) (a b : Nat) : List Lexeme :=
  (ts.tokens.toList.extract a b).map Token.lexeme

theorem toList_textBetween {a b : Nat} (h : a ≤ b) :
    (ts.textBetween a b).toList = Lexeme.textOf (ts.between a b) := by
  rw [textBetween, String.toList_join, Nat.min_eq_left h, Array.toList_extract, between,
    Lexeme.textOf, List.flatMap_map, List.flatMap_map]
  rfl

theorem Holds.between_eq {a b : Nat} (h : ts.Holds ls) (hb : b ≤ ls.length) :
    ts.between a b = (ls.drop a).take (b - a) := by
  rw [between, List.extract_eq_take_drop, List.map_take, List.map_drop, show _ = _ from h,
    ← List.drop_take, ← List.drop_take, List.take_append_of_le_length hb]

theorem Holds.getElem?_between {a b n : Nat} (h : ts.Holds ls) (hb : b ≤ ls.length)
    (hn : a + n < b) : (ts.between a b)[n]? = some (ts.token (a + n)).lexeme := by
  rw [h.between_eq hb, List.getElem?_take_of_lt (by omega), List.getElem?_drop]
  exact h.getElem? (by omega)

theorem Holds.length_between {a b : Nat} (h : ts.Holds ls) (hb : b ≤ ls.length) :
    (ts.between a b).length = b - a := by
  rw [h.between_eq hb, List.length_take, List.length_drop]
  omega

variable {cs : List Char}

/-- A token of a text is cut as itself when it stands alone. -/
theorem Holds.lexemes_token (h : ts.Holds (Lexeme.lexemes cs))
    (hk : (ts.token i).kind ≠ .endOfInput) :
    Lexeme.lexemes (ts.token i).text.toList = [(ts.token i).lexeme] :=
  Lexeme.lexemes_of_mem (List.mem_of_getElem? (h.getElem? (h.lt_length hk)))

/-- The tokens of a literal are cut as themselves wherever it stands. -/
theorem Holds.lexemes_literal {a b : Nat} (h : ts.Holds (Lexeme.lexemes cs)) (hab : a ≤ b)
    (hk : (ts.token b).kind = .stringQuote ∨ (ts.token b).kind = .templateQuote)
    (more : List Char) :
    Lexeme.lexemes ((ts.textBetween a (b + 1)).toList ++ more) =
      ts.between a (b + 1) ++ Lexeme.lexemes more := by
  have hend : (ts.token b).kind ≠ .endOfInput := by
    rcases hk with hk | hk <;> rw [hk] <;> exact nofun
  have hlt := h.lt_length hend
  obtain ⟨d, hd, htext⟩ := Lexeme.toList_of_quote (l := (ts.token b).lexeme)
    (h.lexemes_token hend) hk
  have hlast : ts.between a (b + 1) = ts.between a b ++ [(ts.token b).lexeme] := by
    have hsize : b + 1 - a = b - a + 1 := by omega
    rw [h.between_eq (show b + 1 ≤ _ from hlt), h.between_eq (Nat.le_of_lt hlt), hsize,
      List.take_add_one, List.getElem?_drop, Nat.add_sub_cancel' hab, h.getElem? hlt]
    rfl
  have hwhole : Lexeme.lexemes cs = (Lexeme.lexemes cs).take a ++
      (ts.between a b ++ [(ts.token b).lexeme]) ++ (Lexeme.lexemes cs).drop (b + 1) := by
    have hsize : a + (b + 1 - a) = b + 1 := by omega
    rw [← hlast, h.between_eq (show b + 1 ≤ _ from hlt), ← List.take_add, hsize,
      List.take_append_drop]
  rw [toList_textBetween (by omega), hlast]
  exact Lexeme.lexemes_literal hwhole hd htext

end

/-!
# Tokens of marks

Marks are laid out in a stream, with blanks between them that do not matter.
-/

def Blanks (ts : Stream) (i k : Nat) : Prop :=
  i ≤ k ∧ ∀ n, i ≤ n → n < k → (ts.token n).kind = .space

/-- The tokens between two positions are those of marks, each of which may have
blanks in front of it. -/
inductive Laid (ts : Stream) : List Mark → Nat → Nat → Prop
  | done {i : Nat} : Laid ts [] i i
  | word {l : Lexeme} {ms : List Mark} {i k j : Nat} : ts.Blanks i k → k < ts.tokens.size →
      ts.trivium? k = none → (ts.token k).lexeme = l → Laid ts ms (k + 1) j →
      Laid ts (.word l :: ms) i j
  | literal {lit : List Lexeme} {ms : List Mark} {i k j : Nat} : ts.Blanks i k →
      k < ts.tokens.size → ts.trivium? k = none →
      (∀ n, n < lit.length → lit[n]? = some (ts.token (k + n)).lexeme) →
      Laid ts ms (k + lit.length) j → Laid ts (.literal lit :: ms) i j

section
variable {ts : Stream} {ls rest : List Lexeme} {ms ms' : List Mark} {i j k : Nat}

theorem skip_of_blanks (h : ts.Blanks i k) (hk : k < ts.tokens.size)
    (hnone : ts.trivium? k = none) : ts.skip i = (k, false) := by
  have hskip : ∀ left i, i ≤ k → k < i + left → (∀ n, i ≤ n → n < k → (ts.token n).kind = .space) →
      ts.skipFrom left i false = (k, false) := by
    intro left
    induction left with
    | zero => exact fun i hle hlt => absurd hle (by omega)
    | succ left ih =>
      intro i hle hlt hblank
      unfold skipFrom
      rcases Nat.eq_or_lt_of_le hle with rfl | hik
      · rw [hnone]
      · have htrivium : ts.trivium? i = some (i + 1, false) := by
          unfold trivium?
          rw [hblank i (Nat.le_refl i) hik]
        rw [htrivium]
        dsimp only
        rw [if_pos (by omega), Bool.or_self]
        exact ih (i + 1) (by omega) (by omega) fun n hn => hblank n (by omega)
  exact hskip _ i h.1 (by omega) h.2

theorem Laid.append (h : Laid ts (ms ++ ms') i j) : ∃ m, Laid ts ms i m ∧ Laid ts ms' m j := by
  induction ms generalizing i with
  | nil => exact ⟨i, .done, h⟩
  | cons mark ms ih =>
    cases h with
    | word hblanks hk hnone hl hrest =>
      obtain ⟨m, hms, hms'⟩ := ih hrest
      exact ⟨m, .word hblanks hk hnone hl hms, hms'⟩
    | literal hblanks hk hnone hlit hrest =>
      obtain ⟨m, hms, hms'⟩ := ih hrest
      exact ⟨m, .literal hblanks hk hnone hlit hms, hms'⟩

theorem Laid.reads {l : Lexeme} (h : Laid ts (.word l :: ms) i j) :
    ∃ m, ts.reading.Reads l.kind i m ∧ ts.textAt i = l.text ∧ ts.breaksAt i = false ∧
      Laid ts ms m j := by
  cases h with
  | @word _ _ _ k _ hblanks hk hnone hl hrest =>
    have hskip := skip_of_blanks hblanks hk hnone
    subst hl
    refine ⟨k + 1, ⟨?_, ?_, trivial⟩, ?_, ?_, hrest⟩
    · rw [kindAt, nextAt, hskip]
      rfl
    · rw [past, hskip]
    · rw [textAt, nextAt, hskip]
      rfl
    · rw [breaksAt, hskip]

theorem Holds.token_of_drop {l : Lexeme} (hls : ts.Holds ls) (h : ls.drop i = l :: rest) :
    i < ls.length ∧ (ts.token i).lexeme = l ∧ ls.drop (i + 1) = rest := by
  have hlt : i < ls.length := by
    refine Nat.lt_of_not_le fun hle => ?_
    rw [List.drop_eq_nil_of_le hle] at h
    cases h
  have hfirst := congrArg List.head? h
  rw [List.head?_drop, hls.getElem? hlt] at hfirst
  refine ⟨hlt, Option.some.inj hfirst, ?_⟩
  rw [← List.tail_drop, h]
  rfl

theorem Holds.trivium?_slash {cs : List Char} (hls : ts.Holds (Lexeme.lexemes cs))
    (hk : (ts.token i).kind = .punct .slash) (hi : i < (Lexeme.lexemes cs).length)
    (h : ∀ d ∈ (Lexeme.textOf ((Lexeme.lexemes cs).drop (i + 1))).head?, d ≠ '/' ∧ d ≠ '*') :
    ts.trivium? i = none := by
  unfold trivium?
  rw [hk]
  dsimp only
  rcases Nat.eq_or_lt_of_le (show i + 1 ≤ _ from hi) with hlast | hnext
  · have hend := hls.lexeme_token (i := i + 1) (by rw [hls.size]; omega)
    rw [List.getElem?_append_right (by omega), ← hlast, Nat.sub_self] at hend
    have htoken := Option.some.inj hend
    have hkind : (ts.token (i + 1)).kind = .endOfInput := (congrArg Lexeme.kind htoken).symm
    have htext : (ts.token (i + 1)).text = "" := (congrArg Lexeme.text htoken).symm
    rw [hkind, Token.startsWith, htext]
    rfl
  · have htoken := hls.getElem? hnext
    have hown := Lexeme.lexemes_of_mem (List.mem_of_getElem? htoken)
    obtain ⟨first, text, hfirst, _⟩ := Lexeme.lexemes_eq_singleton hown
    have hd := h first (by
      rw [List.drop_eq_getElem_cons hnext, Lexeme.textOf_cons,
        show (Lexeme.lexemes cs)[i + 1] = _ from Option.some.inj
          ((List.getElem?_eq_getElem hnext).symm.trans htoken), hfirst]
      rfl)
    have hchars : ∀ mark : Punctuator, (ts.token (i + 1)).kind = .punct mark →
        mark.chars = first :: text := fun mark hmark =>
      (Lexeme.toList_eq_chars hown hmark).symm.trans hfirst
    split
    · rename_i hslash
      obtain ⟨rfl, _⟩ := List.cons.inj (hchars .slash hslash)
      exact absurd rfl hd.1
    · rename_i hslash
      obtain ⟨rfl, _⟩ := List.cons.inj (hchars .slashEq hslash)
      exact absurd rfl hd.1
    · refine if_neg fun hstar => hd.2 ?_
      rw [Token.startsWith, show (ts.token (i + 1)).text.toList = _ from hfirst] at hstar
      simpa using hstar

theorem Blanks.cons (hk : (ts.token i).kind = .space) (h : ts.Blanks (i + 1) k) :
    ts.Blanks i k := by
  have hle := h.1
  refine ⟨by omega, fun n hn hn' => ?_⟩
  rcases Nat.eq_or_lt_of_le hn with rfl | hlt
  · exact hk
  · exact h.2 n hlt hn'

theorem Laid.blank (hk : (ts.token i).kind = .space) (h : Laid ts ms (i + 1) j)
    (hms : ms ≠ []) : Laid ts ms i j := by
  cases h with
  | done => exact absurd rfl hms
  | word hblanks hlt hnone hl hrest => exact .word (hblanks.cons hk) hlt hnone hl hrest
  | literal hblanks hlt hnone hlit hrest => exact .literal (hblanks.cons hk) hlt hnone hlit hrest

theorem Laid.of_lays {cs : List Char} (hls : ts.Holds (Lexeme.lexemes cs)) (h : Piece.Lays ms rest)
    (hrest : (Lexeme.lexemes cs).drop i = rest) (hi : i ≤ (Lexeme.lexemes cs).length) :
    ∃ j, Laid ts ms i j ∧ ts.Blanks j (Lexeme.lexemes cs).length := by
  have hsize := hls.size
  induction h generalizing i with
  | done =>
    have hle := List.drop_eq_nil_iff.mp hrest
    obtain rfl : i = (Lexeme.lexemes cs).length := by omega
    exact ⟨_, .done, Nat.le_refl _, fun n hn hn' => absurd hn' (by omega)⟩
  | @blank l ms _ hk _ ih =>
    obtain ⟨hlt, rfl, hdrop⟩ := hls.token_of_drop hrest
    obtain ⟨j, hlaid, hblanks⟩ := ih hdrop hlt
    cases ms with
    | nil =>
      cases hlaid
      exact ⟨i, .done, hblanks.cons hk⟩
    | cons => exact ⟨j, hlaid.blank hk (List.cons_ne_nil _ _), hblanks⟩
  | @word l ms _ hplain hspace hslash _ ih =>
    obtain ⟨hlt, rfl, hdrop⟩ := hls.token_of_drop hrest
    obtain ⟨j, hlaid, hblanks⟩ := ih hdrop hlt
    refine ⟨j, .word ⟨Nat.le_refl i, fun n hn hn' => absurd hn' (by omega)⟩ (by omega) ?_ rfl
      hlaid, hblanks⟩
    by_cases hk : (ts.token i).kind = .punct .slash
    · exact hls.trivium?_slash hk hlt (hdrop ▸ hslash hk)
    · unfold Lexeme.isPlain at hplain
      unfold trivium?
      split
      · exact absurd ‹_› hspace
      · rename_i hnewline
        rw [show (ts.token i).lexeme.kind = _ from hnewline] at hplain
        cases hplain
      · exact absurd ‹_› hk
      · rfl
  | @literal l lit ls ms hk _ ih =>
    obtain ⟨hlt, htoken, _⟩ := hls.token_of_drop hrest
    have hdrop : (Lexeme.lexemes cs).drop (i + (l :: lit).length) = ls := by
      rw [← List.drop_drop, hrest, List.drop_left]
    have hlength : i + (l :: lit).length ≤ (Lexeme.lexemes cs).length := by
      have hcount := congrArg List.length hrest
      rw [List.length_drop, List.length_append] at hcount
      omega
    obtain ⟨j, hlaid, hblanks⟩ := ih hdrop hlength
    refine ⟨j, .literal ⟨Nat.le_refl i, fun n hn hn' => absurd hn' (by omega)⟩ (by omega) ?_ ?_
      hlaid, hblanks⟩
    · rw [← htoken] at hk
      unfold trivium?
      rcases hk with hk | hk
      · rw [show (ts.token i).kind = _ from hk]
      · rw [show (ts.token i).kind = _ from hk]
    · intro n hn
      rw [← hls.getElem? (by omega), ← List.getElem?_drop, hrest, List.getElem?_append_left hn]

theorem Holds.kind_end (h : ts.Holds ls) : (ts.token ls.length).kind = .endOfInput := by
  have hlast := h.ended.last
  rwa [h.size, Nat.add_sub_cancel] at hlast

theorem Holds.trivium?_end (h : ts.Holds ls) : ts.trivium? ls.length = none := by
  rw [trivium?, h.kind_end]

theorem Holds.kindAt_end (hls : ts.Holds ls) (h : ts.Blanks j ls.length) :
    ts.kindAt j = .endOfInput := by
  rw [kindAt, nextAt, skip_of_blanks h (by rw [hls.size]; exact Nat.lt_succ_self _) hls.trivium?_end]
  exact hls.kind_end

end

end Stream
end Grammar
end ScriptBundler
