import ScriptBundler.Proofs.Exactness
import ScriptBundler.Proofs.LexedStream
import ScriptBundler.Proofs.Segmentation

/-!
# The text of tokens

The tokens of a text follow each other from its first character to its last
one, so what some of them have is a part of the text.
-/

namespace ScriptBundler
namespace Grammar
namespace Stream

section
variable {ts : Stream} {i j k : Nat}

theorem textBetween_append (hij : i ≤ j) (hjk : j ≤ k) :
    ts.textBetween i j ++ ts.textBetween j k = ts.textBetween i k := by
  have htokens := @Array.extract_append_extract _ ts.tokens i j k
  rw [Nat.min_eq_left hij, Nat.max_eq_right hjk] at htokens
  simp only [textBetween, Nat.min_eq_left hij, Nat.min_eq_left hjk,
    Nat.min_eq_left (Nat.le_trans hij hjk), ← htokens, Array.toList_append, List.map_append,
    String.join_append]

theorem textBetween_succ (h : i < ts.tokens.size) :
    ts.textBetween i (i + 1) = (ts.token i).text := by
  have hextract : (ts.tokens.extract i (i + 1)).toList = [ts.tokens[i]] := by
    rw [Array.toList_extract, List.extract_eq_take_drop, Nat.add_sub_cancel_left,
      List.drop_eq_getElem_cons (by simpa using h), List.take_succ_cons, List.take_zero,
      Array.getElem_toList]
  have htoken : ts.token i = ts.tokens[i] := by
    rw [token, Array.getElem?_eq_getElem h, Option.getD_some]
  rw [textBetween, Nat.min_eq_left (Nat.le_succ i), hextract, htoken]
  simp [String.join]

def textFrom (ts : Stream) (i : Nat) : List Char :=
  (ts.textBetween i ts.tokens.size).toList

theorem textFrom_eq (hij : i ≤ j) (hj : j ≤ ts.tokens.size) :
    ts.textFrom i = (ts.textBetween i j).toList ++ ts.textFrom j := by
  rw [textFrom, ← textBetween_append hij hj, String.toList_append]
  rfl

theorem textFrom_succ (h : i < ts.tokens.size) :
    ts.textFrom i = (ts.token i).text.toList ++ ts.textFrom (i + 1) := by
  rw [textFrom_eq (Nat.le_succ i) h, textBetween_succ h]

end
end Stream

theorem Stream.Holds.text_mark {ts : Stream} {cs : List Char} {i : Nat} {mark : Punctuator}
    (h : ts.Holds (Lexeme.lexemes cs)) (hk : (ts.token i).kind = .punct mark) :
    (ts.token i).text = String.ofList mark.chars := by
  have htoken := h.lexemes_token (i := i) (by rw [hk]; exact nofun)
  rw [← Lexeme.toList_eq_chars (l := (ts.token i).lexeme) htoken hk, Token.lexeme,
    String.ofList_toList]

theorem Stream.Holds.ne_end {ts : Stream} {cs : List Char} {i : Nat}
    (h : ts.Holds (Lexeme.lexemes cs)) (hi : i + 1 < ts.tokens.size) :
    (ts.token i).text ≠ "" ∧ (ts.token i).kind ≠ .endOfInput := by
  have hmem := List.mem_of_getElem? (h.getElem? (i := i) (by rw [h.size] at hi; omega))
  have hown := Lexeme.lexemes_of_mem hmem
  obtain ⟨c, t, htext, _⟩ := Lexeme.lexemes_eq_singleton hown
  refine ⟨fun hempty => ?_, (Lexeme.isLongest_of_own hown).ne_endOfInput⟩
  rw [Token.lexeme, hempty] at htext
  cases htext

theorem Stream.Holds.text_end {ts : Stream} {ls : List Lexeme} (h : ts.Holds ls) :
    (ts.token (ts.tokens.size - 1)).text = "" := by
  have hlast := h.lexeme_token (i := ts.tokens.size - 1) (by rw [h.size]; omega)
  rw [h.size, Nat.add_sub_cancel, List.getElem?_append_right (Nat.le_refl _), Nat.sub_self] at hlast
  rw [h.size, Nat.add_sub_cancel]
  exact (congrArg Lexeme.text (Option.some.inj hlast)).symm

theorem Stream.Holds.textBetween_token {ts : Stream} {ls : List Lexeme} {i : Nat}
    (h : ts.Holds ls) (hk : (ts.token i).kind ≠ .endOfInput) :
    ts.textBetween i (i + 1) = (ts.token i).text := by
  have hlt := h.lt_length hk
  exact textBetween_succ (by rw [h.size]; omega)

theorem Stream.Holds.textBetween_mark {ts : Stream} {cs : List Char} {i : Nat} {mark : Punctuator}
    (h : ts.Holds (Lexeme.lexemes cs)) (hk : (ts.token i).kind = .punct mark) :
    ts.textBetween i (i + 1) = String.ofList mark.chars := by
  rw [h.textBetween_token (by rw [hk]; exact nofun), h.text_mark hk]

end Grammar

namespace Token

theorem span_of_located {p : Place} {ls : List Lexeme} {i : Nat} {t : Token}
    (h : (located p ls)[i]? = some t) :
    t.span = ⟨p.offset + String.utf8Len (Lexeme.textOf (ls.take i)),
      p.offset + String.utf8Len (Lexeme.textOf (ls.take (i + 1)))⟩ := by
  induction ls generalizing p i with
  | nil =>
    cases i with
    | zero => exact Option.some.inj h ▸ rfl
    | succ i => cases h
  | cons l ls ih =>
    have hlen : String.utf8Len l.text.toList = l.text.utf8ByteSize := by
      rw [← String.utf8ByteSize_ofList, String.ofList_toList]
    cases i with
    | zero =>
      obtain rfl := Option.some.inj h
      simp [locate, Lexeme.textOf, hlen]
    | succ i =>
      rw [ih h, offset_after]
      simp only [List.take_succ_cons, Lexeme.textOf_cons, String.utf8Len_append, hlen,
        Nat.add_assoc]

end Token

namespace Program

open Grammar

variable {source : String} {i j : Nat}

theorem toList_textBetween_zero (source : String) (i : Nat) :
    ((stream source).textBetween 0 i).toList =
      Lexeme.textOf ((Lexeme.lexemes source.toList).take i) := by
  rw [Stream.toList_textBetween (Nat.zero_le i), Stream.between, List.extract_eq_take_drop,
    Nat.sub_zero, List.drop_zero, List.map_take, Token.lex_lexemes, List.take_append,
    Lexeme.textOf_append]
  cases i - (Lexeme.lexemes source.toList).length with
  | zero => exact List.append_nil _
  | succ n =>
    rw [List.take_succ_cons, List.take_nil]
    exact List.append_nil _

theorem textBetween_of_size_le (h : (Token.lex source).size ≤ i + 1) :
    (stream source).textBetween 0 i = source := by
  have hsize : (Token.lex source).size = _ := (Stream.holds_lex source false).size
  refine String.toList_injective ?_
  rw [toList_textBetween_zero, List.take_of_length_le (by omega), Lexeme.textOf_lexemes]

theorem textBetween_all (source : String) :
    (stream source).textBetween 0 (Token.lex source).size = source :=
  textBetween_of_size_le (Nat.le_succ _)

/-- The number of bytes in front of a token. -/
@[irreducible]
def offset (source : String) (i : Nat) : Nat :=
  ((stream source).textBetween 0 i).utf8ByteSize

theorem offset_mono (h : i ≤ j) : offset source i ≤ offset source j := by
  unfold offset
  rw [← Stream.textBetween_append (Nat.zero_le i) h, String.utf8ByteSize_append]
  exact Nat.le_add_right _ _

theorem offset_of_size_le (h : (Token.lex source).size ≤ i + 1) :
    offset source i = source.utf8ByteSize := by
  rw [offset, textBetween_of_size_le h]

theorem offset_le (source : String) (i : Nat) : offset source i ≤ source.utf8ByteSize := by
  rw [← offset_of_size_le (i := max i (Token.lex source).size) (by omega)]
  exact offset_mono (Nat.le_max_left _ _)

theorem span_token (source : String) (i : Nat) :
    ((stream source).token i).span = ⟨offset source i, offset source (i + 1)⟩ := by
  have hlen : ∀ i, String.utf8Len (Lexeme.textOf ((Lexeme.lexemes source.toList).take i)) =
      offset source i := by
    intro i
    rw [← toList_textBetween_zero, ← String.utf8ByteSize_ofList, String.ofList_toList, offset]
  have hspan : ∀ {i}, i < (Token.lex source).size →
      ((stream source).token i).span = ⟨offset source i, offset source (i + 1)⟩ := by
    intro i hi
    have htoken := Array.getElem?_eq_getElem hi
    rw [Stream.token, htoken, Option.getD_some]
    rw [← Array.getElem?_toList, Token.toList_lex] at htoken
    rw [Token.span_of_located htoken, hlen, hlen, Place.start, Nat.zero_add, Nat.zero_add]
  rcases Nat.lt_or_ge i (Token.lex source).size with hi | hi
  · exact hspan hi
  · -- The last token is repeated behind the end.
    have hpos : 0 < (Token.lex source).size := (inferInstance : (stream source).Ended).nonempty
    rw [Stream.token_of_size_le hi, hspan (Nat.sub_lt hpos Nat.one_pos)]
    repeat rw [offset_of_size_le (by omega)]

theorem extract_offset (h : i ≤ j) :
    String.Pos.Raw.extract source ⟨offset source i⟩ ⟨offset source j⟩ =
      (stream source).textBetween i j := by
  have hsplit : source.toList = ((stream source).textBetween 0 i).toList ++
      ((stream source).textBetween i j).toList ++
        ((stream source).textBetween j (max j (Token.lex source).size)).toList := by
    rw [← String.toList_append, ← String.toList_append, Stream.textBetween_append (Nat.zero_le i) h,
      Stream.textBetween_append (Nat.zero_le j) (Nat.le_max_left _ _),
      textBetween_of_size_le (by omega)]
  have hvalid := String.extract_of_valid ((stream source).textBetween 0 i).toList
    ((stream source).textBetween i j).toList
    ((stream source).textBetween j (max j (Token.lex source).size)).toList
  rw [← hsplit, ← String.utf8Len_append, ← String.toList_append,
    Stream.textBetween_append (Nat.zero_le i) h] at hvalid
  simpa only [offset, String.ofList_toList, ← String.utf8ByteSize_ofList] using hvalid

end Program
end ScriptBundler
