import Mathlib.Data.List.DropRight
import ScriptBundler.Proofs.Locations
import ScriptBundler.Proofs.Segmentation

/-!
# The lines and columns of tokens

Tokens are placed by counting while the text is cut, and error reports show the
line of a token as the text is split into lines.  Both agree: the place of a
token is determined by the text in front of it, and the line that is shown for
it holds the token at its column.
-/

namespace ScriptBundler

namespace Text

def lastLine (cs : List Char) : List Char :=
  cs.rtakeWhile fun c => !isLineBreak c

section
variable {cs text : List Char}

theorem countP_of_keep (h : ∀ c ∈ text, isLineBreak c = false) : text.countP isLineBreak = 0 :=
  List.countP_eq_zero.mpr fun c hc => by simp [h c hc]

theorem lastLine_append_keep (h : ∀ c ∈ text, isLineBreak c = false) (cs : List Char) :
    lastLine (cs ++ text) = lastLine cs ++ text := by
  induction text using List.reverseRecOn with
  | nil => rw [List.append_nil, List.append_nil]
  | append_singleton text c ih =>
    have hc := h c (List.mem_append_right text (List.mem_singleton_self c))
    rw [← List.append_assoc, lastLine, List.rtakeWhile_concat_pos _ _ _ (by simpa using hc),
      ← lastLine, ih fun d hd => h d (List.mem_append_left [c] hd), List.append_assoc]

theorem lastLine_concat_cut {c : Char} (h : isLineBreak c = true) (cs : List Char) :
    lastLine (cs ++ [c]) = [] :=
  List.rtakeWhile_concat_neg _ _ _ (by simpa using h)

theorem length_splitLines (cs : List Char) :
    (splitLines cs).length = 1 + cs.countP isLineBreak := by
  induction cs with
  | nil => rfl
  | cons c cs ih =>
    unfold splitLines at ih ⊢
    cases hc : isLineBreak c with
    | true => rw [split_cons_cut hc, List.length_cons, ih, List.countP_cons_of_pos hc, Nat.add_assoc]
    | false =>
      obtain ⟨part, rest, hparts⟩ := List.exists_cons_of_ne_nil (split_ne_nil isLineBreak cs)
      rw [hparts] at ih
      rw [split_cons_keep hc hparts, List.countP_cons_of_neg (by simpa using hc), ← ih]
      rfl

theorem head?_splitLines (cs : List Char) :
    (splitLines cs).head? = some (cs.takeWhile fun c => !isLineBreak c) := by
  unfold splitLines
  induction cs with
  | nil => rfl
  | cons c cs ih =>
    cases hc : isLineBreak c with
    | true => simp [split_cons_cut hc, hc]
    | false =>
      obtain ⟨part, rest, hparts⟩ := List.exists_cons_of_ne_nil (split_ne_nil isLineBreak cs)
      rw [hparts] at ih
      rw [split_cons_keep hc hparts, List.head?_cons, Option.some.inj ih]
      simp [hc]

theorem getElem?_splitLines (before after : List Char) :
    (splitLines (before ++ after))[before.countP isLineBreak]? =
      some (lastLine before ++ after.takeWhile fun c => !isLineBreak c) := by
  induction before using List.reverseRecOn generalizing after with
  | nil => exact List.head?_eq_getElem? ▸ head?_splitLines after
  | append_singleton before c ih =>
    rw [List.append_assoc, List.singleton_append, List.countP_append]
    cases hc : isLineBreak c with
    | true =>
      have hlength := length_splitLines before
      unfold splitLines at hlength ⊢
      rw [split_append_cut hc, List.countP_singleton, if_pos hc, Nat.add_comm, ← hlength,
        List.getElem?_append_right (Nat.le_refl _), Nat.sub_self, lastLine_concat_cut hc,
        List.nil_append]
      exact List.head?_eq_getElem? ▸ head?_splitLines after
    | false =>
      rw [List.countP_singleton, if_neg (by simp [hc]), Nat.add_zero, ih,
        lastLine_append_keep (by simpa using hc)]
      simp [hc]

end

def endsLine (b : UInt8) : Bool :=
  b == 10 || b == 11 || b == 12

theorem endsLine_ofNat {n : Nat} (h : n < 256) :
    endsLine (UInt8.ofNat n) = true ↔ n = 10 ∨ n = 11 ∨ n = 12 := by
  simp [endsLine, ← UInt8.toNat_inj, UInt8.toNat_ofNat_of_lt' h, or_assoc]

theorem countP_utf8EncodeChar (c : Char) :
    (String.utf8EncodeChar c).countP endsLine = if isLineBreak c then 1 else 0 := by
  have hbreak : isLineBreak c = true ↔ c.toNat = 10 ∨ c.toNat = 11 ∨ c.toNat = 12 := by
    simp [isLineBreak, Char.toNat_inj.symm, or_assoc]
  have hhigh : ∀ n, 128 ≤ n → n < 256 → endsLine (UInt8.ofNat n) = false := by
    intro n hle hlt
    refine Bool.eq_false_iff.mpr fun h => ?_
    have := (endsLine_ofNat hlt).mp h
    omega
  have hvalid : c.toNat < 0xd800 ∨ 0xdfff < c.toNat ∧ c.toNat < 0x110000 := c.valid
  have hval : c.val.toNat = c.toNat := rfl
  unfold String.utf8EncodeChar
  simp only [hbreak, hval]
  generalize c.toNat = v at hvalid ⊢
  by_cases hlow : v ≤ 127
  · simp [hlow, endsLine_ofNat (show v < 256 by omega)]
  · rw [if_neg (show ¬ (v = 10 ∨ v = 11 ∨ v = 12) by omega), List.countP_eq_zero]
    split_ifs <;>
      simp (disch := omega) only [List.forall_mem_cons, hhigh, Bool.false_eq_true,
        not_false_eq_true, List.not_mem_nil, false_implies, implies_true, and_self]

theorem countP_encode (cs : List Char) :
    (cs.flatMap String.utf8EncodeChar).countP endsLine = cs.countP isLineBreak := by
  induction cs with
  | nil => rfl
  | cons c cs ih =>
    rw [List.flatMap_cons, List.countP_append, countP_utf8EncodeChar, ih, List.countP_cons,
      Nat.add_comm]

theorem take_encode (before after : List Char) :
    ((before ++ after).flatMap String.utf8EncodeChar).take (String.utf8Len before) =
      before.flatMap String.utf8EncodeChar := by
  have hlength : (before.flatMap String.utf8EncodeChar).length = String.utf8Len before := by
    induction before with
    | nil => rfl
    | cons c before ih =>
      rw [List.flatMap_cons, List.length_append, ih, String.length_utf8EncodeChar,
        String.utf8Len_cons, Nat.add_comm]
  rw [List.flatMap_append, List.take_left' hlength]

end Text

namespace Lexeme

section
variable {k : Token.Kind} {c : Char} {cs : List Char} {l : Lexeme}

theorem eq_singleton_of_own (h : lexemes l.text.toList = [l]) (hc : c ∈ l.text.toList)
    (halone : c ∈ alone) : l.text.toList = [c] ∧ l.kind = (classify c []).1 := by
  obtain ⟨d, t, htext, hclassify⟩ := lexemes_eq_singleton h
  have hsingle : l.text.toList = [c] := by
    rcases (isLongest_of_own h).lexeme with hlexeme | ⟨_, hlength, _⟩
    · exact hlexeme.eq_singleton hc halone
    · obtain ⟨d, hd⟩ := List.length_eq_one_iff.mp hlength
      rw [hd] at hc ⊢
      rw [List.mem_singleton.mp hc]
  obtain ⟨rfl, rfl⟩ := List.cons.inj (htext.symm.trans hsingle)
  exact ⟨hsingle, by rw [hclassify]⟩

theorem kind_of_dollar (h : lexemes l.text.toList = [l]) (hc : '$' ∈ l.text.toList) :
    l.kind = .identifier := by
  have hword : ∀ word ∈ Keyword.all, '$' ∉ word.text.toList := by decide
  have hmark : ∀ mark ∈ Punctuator.all, '$' ∉ mark.chars := by decide
  rcases (isLongest_of_own h).lexeme with hlexeme | ⟨_, hlength, hno⟩
  · generalize l.kind = k at hlexeme
    generalize l.text.toList = text at hc hlexeme
    cases hlexeme with
    | identifier => rfl
    | keyword word => exact absurd hc (hword word (mem_all_keyword word))
    | number hnumber =>
      have hno : ∀ c ∈ text, c ≠ '$' := by
        refine hnumber.forall_mem ?_ (by simp)
        rintro _ hdigit rfl
        cases hdigit
      exact absurd rfl (hno '$' hc)
    | space _ hblanks => cases hblanks '$' hc
    | punct mark => exact absurd hc (hmark mark (Punctuator.mem_all mark))
    | stringQuote hquote => rcases hquote with rfl | rfl <;> cases List.mem_singleton.mp hc
    | templateQuote => cases List.mem_singleton.mp hc
    | newline hbreak =>
      rw [← List.mem_singleton.mp hc] at hbreak
      cases hbreak
  · obtain ⟨c, hsingle⟩ := List.length_eq_one_iff.mp hlength
    rw [hsingle] at hc hno
    obtain rfl := List.mem_singleton.mp hc
    refine absurd (.identifier (.mk rfl nofun) fun word heq => ?_) (hno _ _ (List.prefix_refl _))
    exact hword word (mem_all_keyword word) (heq ▸ hc)

theorem lineBreaks_of_own (h : lexemes l.text.toList = [l]) :
    (l.kind = .newline ∧ ∃ c, l.text.toList = [c] ∧ Text.isLineBreak c = true) ∨
      l.kind ≠ .newline ∧ ∀ c ∈ l.text.toList, Text.isLineBreak c = false := by
  by_cases hk : l.kind = .newline
  · have hlexeme := isLexeme_of_own h hk nofun
    generalize l.text.toList = text at hlexeme
    cases hlexeme with
    | newline hc => exact .inl ⟨hk, _, rfl, hc⟩
  · refine .inr ⟨hk, fun c hc => Bool.eq_false_iff.mpr fun hbreak => hk ?_⟩
    rw [(eq_singleton_of_own h hc (mem_alone_of_isLineBreak hbreak)).2]
    simp only [Text.isLineBreak, Bool.or_eq_true, beq_iff_eq] at hbreak
    rcases hbreak with (rfl | rfl) | rfl <;> rfl

end
end Lexeme

/-!
# Places

The line and the column of a token are those behind the text in front of it.
-/

namespace Place

open Text

def behind (cs : List Char) : Place :=
  ⟨String.utf8Len cs, 1 + cs.countP isLineBreak, 1 + (lastLine cs).length⟩

theorem after_behind {l : Lexeme} (h : Lexeme.lexemes l.text.toList = [l]) (cs : List Char) :
    (behind cs).after l = behind (cs ++ l.text.toList) := by
  have hsize : l.text.utf8ByteSize = String.utf8Len l.text.toList := by
    rw [← String.utf8ByteSize_ofList, String.ofList_toList]
  unfold after behind
  rcases Lexeme.lineBreaks_of_own h with ⟨hk, c, htext, hc⟩ | ⟨hk, hno⟩
  · rw [if_pos hk, hsize, htext, String.utf8Len_append, List.countP_append, List.countP_singleton,
      if_pos hc, lastLine_concat_cut hc]
    rfl
  · rw [if_neg hk, hsize, String.utf8Len_append, List.countP_append, countP_of_keep hno,
      lastLine_append_keep hno, List.length_append, Nat.add_assoc, String.length_toList]
    rfl

end Place

namespace Token

open Text

def place (t : Token) : Place :=
  ⟨t.span.start, t.line, t.column⟩

theorem located_place {ls : List Lexeme} {cs : List Char} {t : Token}
    (hls : ∀ l ∈ ls, Lexeme.lexemes l.text.toList = [l]) (ht : t ∈ located (.behind cs) ls) :
    (t.kind ≠ .newline → ∀ c ∈ t.text.toList, isLineBreak c = false) ∧
      ∃ before after, Lexeme.textOf ls = before ++ (t.text.toList ++ after) ∧
        t.place = .behind (cs ++ before) := by
  induction ls generalizing cs with
  | nil =>
    obtain rfl := List.mem_singleton.mp ht
    exact ⟨fun _ => nofun, [], [], rfl, by rw [List.append_nil]; rfl⟩
  | cons l ls ih =>
    have hl := hls l List.mem_cons_self
    rw [located, Place.after_behind hl] at ht
    rcases List.mem_cons.mp ht with rfl | ht
    · refine ⟨fun hk => ?_, [], Lexeme.textOf ls, rfl, by rw [List.append_nil]; rfl⟩
      rcases Lexeme.lineBreaks_of_own hl with ⟨hk', _⟩ | ⟨_, hno⟩
      · exact absurd hk' hk
      · exact hno
    · obtain ⟨hno, before, after, htext, hplace⟩ :=
        ih (fun l hl => hls l (List.mem_cons_of_mem _ hl)) ht
      refine ⟨hno, l.text.toList ++ before, after, ?_, ?_⟩
      · rw [Lexeme.textOf_cons, htext, List.append_assoc]
      · rw [hplace, List.append_assoc]

theorem countP_newline {ls : List Lexeme} (p : Place)
    (hls : ∀ l ∈ ls, Lexeme.lexemes l.text.toList = [l]) :
    (located p ls).countP (fun t => t.kind == .newline) =
      (Lexeme.textOf ls).countP isLineBreak := by
  induction ls generalizing p with
  | nil => rfl
  | cons l ls ih =>
    rw [located, Lexeme.textOf_cons, List.countP_append, List.countP_cons,
      ih _ fun l hl => hls l (List.mem_cons_of_mem _ hl), Nat.add_comm]
    congr 1
    change (if (l.kind == .newline) = true then 1 else 0) = _
    rcases Lexeme.lineBreaks_of_own (hls l List.mem_cons_self) with ⟨hk, c, htext, hc⟩ | ⟨hk, hno⟩
    · rw [htext, List.countP_singleton, if_pos hc, if_pos (by simpa using hk)]
    · rw [countP_of_keep hno, if_neg (by simpa using hk)]

/-- The places of tokens agree with the lines of the text.  The line of a token
is the number of bytes that end a line in front of it, its column the number of
characters behind the last of them, both counted from one, and the line with
this number has the token at this column. -/
theorem lex_positions (source : String) :
    (∀ t ∈ lex source, ∃ before after,
      source.toList = before ++ (t.text.toList ++ after) ∧
      t.span.start = String.utf8Len before ∧
      t.line = 1 + ((Utf8.encode source).take t.span.start).countP endsLine ∧
      t.column = 1 + (lastLine before).length ∧
      t.line ≤ lineCount source ∧
      ∃ line, (splitLines source.toList)[t.line - 1]? = some line ∧
        (t.kind ≠ .newline → t.text.toList <+: line.drop (t.column - 1))) ∧
    lineCount source = 1 + (lex source).countP (fun t => t.kind == .newline) ∧
    lineCount source = 1 + (Utf8.encode source).countP endsLine := by
  have hown : ∀ l ∈ Lexeme.lexemes source.toList, Lexeme.lexemes l.text.toList = [l] :=
    fun l hl => Lexeme.lexemes_of_mem hl
  refine ⟨fun t ht => ?_, ?_, ?_⟩
  · rw [← Array.mem_toList_iff, toList_lex] at ht
    obtain ⟨hno, before, after, htext, hplace⟩ := @located_place _ [] t hown ht
    rw [Lexeme.textOf_lexemes] at htext
    obtain ⟨hstart, hline, hcolumn⟩ := Place.mk.inj hplace
    rw [List.nil_append] at hstart hline hcolumn
    have hbytes : ((Utf8.encode source).take t.span.start).countP endsLine =
        before.countP isLineBreak := by
      rw [Utf8.encode, htext, hstart, take_encode, countP_encode]
    have hshown := getElem?_splitLines before (t.text.toList ++ after)
    rw [← htext] at hshown
    refine ⟨before, after, htext, hstart, by rw [hbytes, hline], hcolumn, ?_, _,
      (by rwa [hline, Nat.add_sub_cancel_left]), fun hk => ?_⟩
    · rw [lineCount, length_splitLines, hline, htext, List.countP_append]
      omega
    · rw [hcolumn, Nat.add_sub_cancel_left, List.drop_left' rfl,
        List.takeWhile_append_of_pos fun c hc => by simp [hno hk c hc]]
      exact List.prefix_append _ _
  · rw [← Array.countP_toList, toList_lex, countP_newline _ hown, Lexeme.textOf_lexemes, lineCount,
      length_splitLines]
  · rw [Utf8.encode, countP_encode, lineCount, length_splitLines]

/-- A token behind a vertical tab and a character of two bytes. -/
theorem lex_positions_second :
    (⟨.identifier, "b", ⟨4, 5⟩, 2, 2⟩ : Token) ∈ lex "é\x0b b" ∧
      2 = 1 + ((Utf8.encode "é\x0b b").take 4).countP endsLine ∧
      ∃ line, (splitLines "é\x0b b".toList)[1]? = some line ∧ "b".toList <+: line.drop 1 := by
  have hmem : (⟨.identifier, "b", ⟨4, 5⟩, 2, 2⟩ : Token) ∈ lex "é\x0b b" := by decide +kernel
  obtain ⟨_, _, _, _, hline, _, _, line, hshown, hstarts⟩ := (lex_positions _).1 _ hmem
  exact ⟨hmem, hline, line, hshown, hstarts nofun⟩

end Token
end ScriptBundler
