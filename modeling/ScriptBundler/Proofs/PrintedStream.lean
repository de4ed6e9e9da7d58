import ScriptBundler.Proofs.Printing

/-!
# Printed streams

A stream that holds what was printed for pieces: the words of the pieces are
its tokens, literals are copied as they are, and nothing but blanks stands
between them.
-/

namespace ScriptBundler
namespace Grammar

open Piece

namespace Stream

/-- The tokens between two positions are those of printed pieces. -/
def Prints (ts : Stream) (ps : List Piece) (i j : Nat) : Prop :=
  Laid ts (ps.flatMap marks) i j

/-- Behind a position a token stands on the same line, with a blank in front of
it or not. -/
structure Flush (ts : Stream) (j : Nat) : Prop where
  breaks : ts.breaksAt j = false
  token : (ts.token j).kind = .space ∨ (ts.token j).kind = ts.kindAt j

section
variable {ts : Stream} {ps qs rs us : List Piece} {ms ms' : List Mark} {i j k l m : Nat}

theorem Laid.trans (h : Laid ts ms i j) (h' : Laid ts ms' j k) : Laid ts (ms ++ ms') i k := by
  induction h with
  | done => exact h'
  | word hblanks hk hnone hl _ ih => exact .word hblanks hk hnone hl (ih h')
  | literal hblanks hk hnone hlit _ ih => exact .literal hblanks hk hnone hlit (ih h')

theorem Flush.of_blanks (hblanks : ts.Blanks i k) (hk : k < ts.tokens.size)
    (hnone : ts.trivium? k = none) : Flush ts i := by
  have hskip := skip_of_blanks hblanks hk hnone
  refine ⟨by rw [breaksAt, hskip], ?_⟩
  rcases Nat.eq_or_lt_of_le hblanks.1 with rfl | hlt
  · right
    rw [kindAt, nextAt, hskip]
  · exact .inl (hblanks.2 i (Nat.le_refl i) hlt)

theorem Laid.flush (h : Laid ts ms i j) (hj : ts.Flush j) : ts.Flush i := by
  cases h with
  | done => exact hj
  | word hblanks hk hnone => exact .of_blanks hblanks hk hnone
  | literal hblanks hk hnone => exact .of_blanks hblanks hk hnone

theorem Prints.append (h : ts.Prints ps i j) (h' : ts.Prints qs j k) :
    ts.Prints (ps ++ qs) i k := by
  unfold Prints
  rw [List.flatMap_append]
  exact Laid.trans h h'

theorem Prints.split (h : ts.Prints (ps ++ qs) i k) : ∃ j, ts.Prints ps i j ∧ ts.Prints qs j k := by
  unfold Prints at h
  rw [List.flatMap_append] at h
  exact Laid.append h

theorem Prints.split₃ (h : ts.Prints (ps ++ qs ++ rs) i l) :
    ∃ j k, ts.Prints ps i j ∧ ts.Prints qs j k ∧ ts.Prints rs k l :=
  let ⟨k, h, hrs⟩ := h.split
  let ⟨j, hps, hqs⟩ := h.split
  ⟨j, k, hps, hqs, hrs⟩

theorem Prints.split₄ (h : ts.Prints (ps ++ qs ++ rs ++ us) i m) :
    ∃ j k l, ts.Prints ps i j ∧ ts.Prints qs j k ∧ ts.Prints rs k l ∧ ts.Prints us l m :=
  let ⟨l, h, hus⟩ := h.split
  let ⟨j, k, hps, hqs, hrs⟩ := h.split₃
  ⟨j, k, l, hps, hqs, hrs, hus⟩

theorem Prints.flush (h : ts.Prints ps i j) (hj : ts.Flush j) : ts.Flush i :=
  Laid.flush h hj

theorem prints_nil : ts.Prints [] i j ↔ i = j :=
  ⟨fun h => by cases h; rfl, fun h => h ▸ .done⟩

theorem prints_blank : ts.Prints (stick " ") i j ↔ i = j := by
  have hmarks : (stick " ").flatMap marks = [] := by decide +kernel
  unfold Prints
  rw [hmarks]
  exact prints_nil

end
end Stream

section
variable {ts : Stream} {k : Token.Kind} {text : String} {i j : Nat}

theorem Worded.marks (h : Worded k text) (hk : k.isName = true ∨ k.isFixed = true ∨ k = .number) :
    (put text).flatMap marks = [.word ⟨k, text⟩] := by
  have hspace : k ≠ .space := by
    rintro rfl
    rcases hk with hk | hk | hk <;> cases hk
  have hliteral : (Piece.apart text).isLiteral = false := by
    refine Bool.eq_false_iff.mpr fun hliteral => ?_
    obtain ⟨c, t, htext, hclassify⟩ := Lexeme.lexemes_eq_singleton (l := ⟨k, text⟩) h
    rw [Piece.isLiteral, show (Piece.apart text).text.toList = c :: t from htext] at hliteral
    have hquote : (Lexeme.classify c t).1 = .stringQuote ∨
        (Lexeme.classify c t).1 = .templateQuote := by
      rcases Lexeme.isQuote_iff.mp hliteral with rfl | rfl | rfl
      · exact .inl rfl
      · exact .inl rfl
      · exact .inr rfl
    rw [hclassify] at hquote
    rcases hquote with rfl | rfl <;> rcases hk with hk | hk | hk <;> cases hk
  rw [put, List.flatMap_singleton, Piece.marks, hliteral, if_neg Bool.false_ne_true,
    show (Piece.apart text).lexemes = [⟨k, text⟩] from h]
  simp [hspace]

/-- One word that was printed, and is read again. -/
structure Stream.Shows (ts : Stream) (k : Token.Kind) (text : String) (i j : Nat) : Prop where
  reads : ts.reading.Reads k i j
  text : ts.textAt i = text
  flush : ts.Flush i

theorem Stream.Shows.kind (h : ts.Shows k text i j) : ts.kindAt i = k :=
  h.reads.1

theorem Stream.Prints.word (h : ts.Prints (put text) i j) (hword : Worded k text)
    (hk : k.isName = true ∨ k.isFixed = true ∨ k = .number) : ts.Shows k text i j := by
  unfold Prints at h
  rw [hword.marks hk] at h
  have hlaid := h
  obtain ⟨m, hreads, htext, -, hdone⟩ := h.reads
  cases hdone
  cases hlaid with
  | word hblanks hlt hnone => exact ⟨hreads, htext, .of_blanks hblanks hlt hnone⟩

theorem Stream.Prints.fixed (h : ts.Prints (put k.text) i j) (hk : k.isFixed = true) :
    ts.Shows k k.text i j :=
  h.word (worded_text hk) (.inr (.inl hk))

theorem Stream.Prints.keyword (word : Keyword) (h : ts.Prints (put word.text) i j) :
    ts.Shows (.keyword word) word.text i j :=
  h.fixed (k := .keyword word) rfl

theorem Stream.Prints.mark (mark : Punctuator)
    (h : ts.Prints (put (String.ofList mark.chars)) i j) :
    ts.Shows (.punct mark) (String.ofList mark.chars) i j :=
  h.fixed (k := .punct mark) rfl

theorem Stream.Prints.name (h : ts.Prints (put text) i j) (hname : IsName text) :
    ∃ k, k.isName = true ∧ ts.Shows k text i j :=
  let ⟨k, hk, hword⟩ := hname
  ⟨k, hk, h.word hword (.inl hk)⟩

theorem Stream.Prints.variable (h : ts.Prints (put text) i j) (hname : IsVariable text) :
    ∃ k, Parser.namesVariable k = true ∧ ts.Shows k text i j :=
  let ⟨k, hk, hword⟩ := hname
  ⟨k, hk, h.word hword (.inl (isName_of_namesVariable hk))⟩

theorem Stream.Prints.identifier (h : ts.Prints (put text) i j) (hword : Worded .identifier text) :
    ts.Shows .identifier text i j :=
  h.word hword (.inl rfl)

theorem Stream.Shows.readsWord (h : ts.Shows .identifier text i j) :
    ts.reading.ReadsWord text i j :=
  ⟨h.reads, h.text⟩

end

/-- Pieces of more than one word, or with blanks, and their words. -/
def compounds : List (String × List String) :=
  [("if(", ["if", "("]), ("switch(", ["switch", "("]), (")\x7b", [")", "\x7b"]),
    ("for(", ["for", "("]), ("while(", ["while", "("]), (");", [")", ";"]), ("async ", ["async"]),
    ("static ", ["static"]), ("get ", ["get"]), ("set ", ["set"]), (" as ", ["as"]),
    ("* as ", ["*", "as"]), ("import ", ["import"]), (" from ", ["from"]),
    ("export\x7b", ["export", "\x7b"]), ("export default ", ["export", "default"]),
    ("export ", ["export"]), ("export * from ", ["export", "*", "from"])]

section
variable {ts : Stream} {i j : Nat}

theorem Stream.Prints.compound {text : String} (h : ts.Prints (put text) i j) (words : List String)
    (hmem : (text, words) ∈ compounds) : ts.Prints (words.flatMap put) i j := by
  have hmarks : ∀ entry ∈ compounds,
      (put entry.1).flatMap marks = (entry.2.flatMap put).flatMap marks := by decide +kernel
  unfold Prints at h
  rwa [hmarks _ hmem] at h

theorem Stream.Prints.contextual (word : String) (h : ts.Prints (put word) i j)
    (hmem : word ∈ ["get", "set", "as", "from", "of"]) : ts.Shows .identifier word i j := by
  have hwords : ∀ word ∈ ["get", "set", "as", "from", "of"],
      Lexeme.lexemes word.toList = [⟨.identifier, word⟩] := by decide +kernel
  exact h.identifier (hwords word hmem)

end

/-!
# Literals

A literal that is printed has the tokens that it had where it was read.
-/

section
variable {ts : Stream} {rd : Reading} {ls : List Lexeme} {cs : List Char} {raw : String}
  {a b i j : Nat}

theorem Stream.Prints.literal (h : ts.Prints (put raw) i j) (hquotes : rd.Quotes raw a b)
    (hcs : rd.Holds (Lexeme.lexemes cs)) :
    ∃ k, ts.skip i = (k, false) ∧ j = shift a k (b + 1) ∧
      ∀ n, a ≤ n → n ≤ b → (ts.token (shift a k n)).lexeme = (rd.token n).lexeme := by
  have hlt := hquotes.lt
  have hlength := hquotes.lt_length hcs
  obtain ⟨d, t, htext, hd⟩ := hquotes.head hcs
  have hmarks : (put raw).flatMap marks = [.literal (rd.between a (b + 1))] := by
    have hliteral : (Piece.apart raw).isLiteral = true := by
      rw [Piece.isLiteral, show (Piece.apart raw).text.toList = d :: t from htext]
      exact hd
    rw [put, List.flatMap_singleton, Piece.marks, if_pos hliteral,
      ← hquotes.lexemes_eq hcs]
    rfl
  unfold Prints at h
  rw [hmarks] at h
  cases h with
  | @literal _ _ _ k _ hblanks hk hnone hlit hdone =>
    have hcount : (rd.between a (b + 1)).length = b + 1 - a := hcs.length_between hlength
    cases hdone
    refine ⟨k, skip_of_blanks hblanks hk hnone, by rw [hcount]; rfl, fun n hn hn' => ?_⟩
    have htoken := hlit (n - a) (by omega)
    rw [hcs.getElem?_between hlength (by omega), Nat.add_sub_cancel' hn] at htoken
    exact (Option.some.inj htoken).symm

theorem Stream.Quotes.solid (h : rd.Quotes raw a b) (hcs : rd.Holds (Lexeme.lexemes cs)) :
    (rd.token b).Solid := by
  have hend : (rd.token b).kind ≠ .endOfInput := by
    rcases h.last with hk | hk <;> exact readable hk
  obtain ⟨d, hd, htext⟩ := Lexeme.toList_of_quote (l := (rd.token b).lexeme)
    (hcs.lexemes_token hend) h.last
  have hstar : (rd.token b).startsWith '*' = false := by
    rw [Token.startsWith, show (rd.token b).text.toList = [d] from htext]
    rcases Lexeme.isQuote_iff.mp hd with rfl | rfl | rfl <;> rfl
  rcases h.last with hk | hk
  all_goals exact ⟨by simp [hk], by simp [hk], by simp [hk], by simp [hk], by simp [hk], hstar⟩

theorem Stream.Quotes.copies {k : Nat} (h : rd.Quotes raw a b)
    (hcs : rd.Holds (Lexeme.lexemes cs)) (hts : ts.Ended)
    (hsame : ∀ n, a ≤ n → n ≤ b → (ts.token (shift a k n)).lexeme = (rd.token n).lexeme) :
    rd.Copies ts a b k := by
  have hlast : (ts.token (shift a k b)).lexeme = (rd.token b).lexeme :=
    hsame b (Nat.le_of_lt h.lt) (Nat.le_refl b)
  have hlength := h.lt_length hcs
  have hsize := hcs.size
  have hsolid := h.solid hcs
  have hkind : (ts.token (shift a k b)).kind = (rd.token b).kind := congrArg Lexeme.kind hlast
  have htext : (ts.token (shift a k b)).text = (rd.token b).text := congrArg Lexeme.text hlast
  refine ⟨hcs.ended, Nat.le_of_lt h.lt, by omega, ?_, fun n hn hn' => hsame n hn (Nat.le_of_lt hn'),
    .inl hlast, hsolid, ?_⟩
  · refine Nat.lt_of_not_le fun hle => hsolid.input ?_
    rw [← hkind, token_of_size_le hle]
    exact hts.last
  · exact ⟨hkind ▸ hsolid.space, hkind ▸ hsolid.newline, hkind ▸ hsolid.input,
      hkind ▸ hsolid.slash, hkind ▸ hsolid.slashEq, by
        rw [Token.startsWith, htext]
        exact hsolid.star⟩

/-- The tokens of a literal stand behind a position of another stream. -/
structure Stream.Repeats (ts : Stream) (rd : Reading) (raw : String) (a b k i : Nat) : Prop where
  kind : ts.kindAt i = (rd.token a).kind
  text : ts.textAt i = (rd.token a).text
  past : ts.past i = shift a k (a + 1)
  whole : ts.textBetween (ts.skip i).1 (shift a k (b + 1)) = raw
  same : ∀ n, a ≤ n → n ≤ b → (ts.token (shift a k n)).lexeme = (rd.token n).lexeme
  copies : rd.Copies ts a b k

theorem Stream.Prints.repeats (h : ts.Prints (put raw) i j) (hts : ts.Ended)
    (hquotes : rd.Quotes raw a b) (hcs : rd.Holds (Lexeme.lexemes cs)) :
    ∃ k, j = shift a k (b + 1) ∧ ts.Repeats rd raw a b k i := by
  have hlt := hquotes.lt
  obtain ⟨k, hskip, hj, hsame⟩ := h.literal hquotes hcs
  have hcopies := hquotes.copies hcs hts hsame
  have hstart : shift a k a = k := by simp [shift]
  have hfirst : (ts.token k).lexeme = (rd.token a).lexeme := by
    have hfirst := hsame a (Nat.le_refl a) (by omega)
    rwa [hstart] at hfirst
  refine ⟨k, hj, ?_, ?_, ?_, ?_, hsame, hcopies⟩
  · rw [kindAt, nextAt, hskip]
    exact congrArg Lexeme.kind hfirst
  · rw [textAt, nextAt, hskip]
    exact congrArg Lexeme.text hfirst
  · rw [past, hskip, shift_add (Nat.le_refl a), hstart]
  · have hwhole := hcopies.textBetween (Nat.le_refl a) (show a ≤ b + 1 by omega) (Nat.le_refl _)
      fun n hn hn' => congrArg Lexeme.text (hsame n hn (by omega))
    rw [hstart, hquotes.text] at hwhole
    rw [hskip]
    exact hwhole

theorem IsString.reads (h : IsString raw) (hts : ts.Ended) (hprints : ts.Prints (put raw) i j) :
    ts.reading.StringAt raw i j := by
  obtain ⟨rd, cs, i₀, j₀, hcs, hstring⟩ := h
  obtain ⟨k, rfl, hrepeats⟩ := hprints.repeats hts hstring.quotes hcs
  obtain ⟨hk, hrest, -, -⟩ := hstring
  have hlt : (rd.skip i₀).1 + 1 < j₀ := hrest.lt
  refine ⟨hrepeats.kind.trans hk, ?_, hrepeats.whole, trivial⟩
  rw [hrepeats.text, hrepeats.past, show j₀ - 1 + 1 = j₀ by omega]
  exact hrest.move (fun n hn hn' => hrepeats.same n hn (by omega)) (Nat.le_succ _)

theorem IsTemplate.reads {cx : Context} (h : IsTemplate cx raw) (hts : ts.Ended)
    (hprints : ts.Prints (put raw) i j) : Spells ts.reading (.template cx raw) i j := by
  obtain ⟨rd, cs, i₀, j₀, hcs, htemplate⟩ := h
  have := hcs.ended
  obtain ⟨k, rfl, hrepeats⟩ := hprints.repeats hts htemplate.quotes hcs
  cases htemplate with
  | template hk hrest htext _ =>
    have hlt : (rd.skip i₀).1 + 1 < j₀ := hrest.lt rfl
    refine .template (hrepeats.kind.trans hk) ?_ hrepeats.whole trivial
    rw [hrepeats.past, show j₀ - 1 + 1 = j₀ by omega]
    exact hrest.move hrepeats.copies (Nat.le_succ _) (show j₀ ≤ j₀ - 1 + 1 by omega)

end

end Grammar
end ScriptBundler
