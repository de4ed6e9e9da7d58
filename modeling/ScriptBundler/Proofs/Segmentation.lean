import Mathlib.Data.String.Basic
import ScriptBundler.Proofs.Lexing

/-!
# The tokens of a text

Every token of a text is the longest lexeme that the rest of the text starts
with, and the tokens cover the text from its first byte to its last one.
-/

namespace ScriptBundler

namespace Token

def located (p : Place) : List Lexeme → List Token
  | [] => [endAt p]
  | l :: ls => locate p l :: located (p.after l) ls

theorem foldl_append_eq (ls : List Lexeme) (placed : Place × Array Token) :
    ((ls.foldl append placed).2.push (endAt (ls.foldl append placed).1)).toList =
      placed.2.toList ++ located placed.1 ls := by
  induction ls generalizing placed with
  | nil => simp [located]
  | cons l ls ih =>
    rw [List.foldl_cons, ih]
    simp [append, located]

theorem toList_lex (source : String) :
    (lex source).toList = located .start (Lexeme.lexemes source.toList) := by
  unfold lex
  rw [Lexeme.split_eq, List.foldl_toArray]
  exact foldl_append_eq _ _

/-- What a token says about the source it was cut from. -/
structure IsCut (source : String) (t : Token) : Prop where
  not_end : t.kind ≠ .endOfInput
  nonempty : t.text ≠ ""
  valid_start : String.Pos.Raw.IsValid source ⟨t.span.start⟩
  valid_stop : String.Pos.Raw.IsValid source ⟨t.span.stop⟩
  text_eq : t.text = String.Pos.Raw.extract source ⟨t.span.start⟩ ⟨t.span.stop⟩
  longest : Lexeme.IsLongest t.kind t.text.toList
    (String.Pos.Raw.extract source ⟨t.span.start⟩ source.rawEndPos).toList
  keyword_iff (word : Keyword) : t.kind = .keyword word ↔ t.text = word.text

section
variable {p : Place} {before text after : List Char} {l : Lexeme}

theorem offset_after (p : Place) (l : Lexeme) :
    (p.after l).offset = p.offset + l.text.utf8ByteSize := by
  unfold Place.after
  split <;> rfl

theorem isValid_append (before after : List Char) :
    String.Pos.Raw.IsValid (String.ofList (before ++ after)) ⟨String.utf8Len before⟩ := by
  refine String.Pos.Raw.isValid_iff_exists_append.mpr
    ⟨String.ofList before, String.ofList after, String.ofList_append, ?_⟩
  rw [String.rawEndPos, String.utf8ByteSize_ofList]

theorem isCut_locate (hp : p.offset = String.utf8Len before) (htext : l.text.toList = text)
    (hlongest : Lexeme.IsLongest l.kind text (text ++ after)) (hne : text ≠ []) :
    IsCut (String.ofList (before ++ (text ++ after))) (locate p l) := by
  have hsize : l.text.utf8ByteSize = String.utf8Len text := by
    rw [← String.utf8ByteSize_ofList, ← htext, String.ofList_toList]
  have hspan : (locate p l).span =
      ⟨String.utf8Len before, String.utf8Len before + String.utf8Len text⟩ := by
    rw [locate, hp, hsize]
  have hrest : String.Pos.Raw.extract (String.ofList (before ++ (text ++ after)))
      ⟨String.utf8Len before⟩ (String.ofList (before ++ (text ++ after))).rawEndPos =
        String.ofList (text ++ after) := by
    have hvalid := String.extract_of_valid before (text ++ after) []
    rw [List.append_nil] at hvalid
    rw [String.rawEndPos, String.utf8ByteSize_ofList, String.utf8Len_append, hvalid]
  constructor
  · exact hlongest.ne_endOfInput
  · intro hempty
    change l.text = "" at hempty
    rw [hempty] at htext
    exact hne htext.symm
  · rw [hspan]
    exact isValid_append before (text ++ after)
  · rw [hspan, ← String.utf8Len_append, ← List.append_assoc]
    exact isValid_append (before ++ text) after
  · rw [hspan, ← List.append_assoc, String.extract_of_valid, ← htext, String.ofList_toList]
    rfl
  · rw [hspan, hrest, String.toList_ofList, show (locate p l).text.toList = text from htext]
    exact hlongest
  · intro word
    refine (hlongest.keyword_iff word).trans ?_
    rw [← htext]
    exact String.toList_inj

theorem located_isCut (hp : p.offset = String.utf8Len before) (cs : List Char) :
    ∃ body last, located p (Lexeme.lexemes cs) = body ++ [last] ∧ last.kind = .endOfInput ∧
      last.text = "" ∧ last.span = ⟨String.utf8Len (before ++ cs), String.utf8Len (before ++ cs)⟩ ∧
      ∀ t ∈ body, IsCut (String.ofList (before ++ cs)) t := by
  fun_induction Lexeme.lexemes cs generalizing p before with
  | case1 =>
    refine ⟨[], endAt p, rfl, rfl, rfl, ?_, by simp⟩
    rw [endAt, hp, List.append_nil]
  | case2 c rest ih =>
    generalize hl : (⟨_, _⟩ : Lexeme) = l
    have hwhole : c :: rest =
        (c :: rest.take (Lexeme.classify c rest).2) ++ rest.drop (Lexeme.classify c rest).2 := by
      rw [List.cons_append, List.take_append_drop]
    have htext : l.text.toList = c :: rest.take (Lexeme.classify c rest).2 := by
      rw [← hl, String.toList_ofList]
    have hafter : (p.after l).offset =
        String.utf8Len (before ++ (c :: rest.take (Lexeme.classify c rest).2)) := by
      have hlen : String.utf8Len l.text.toList = l.text.utf8ByteSize := by
        rw [← String.utf8ByteSize_ofList, String.ofList_toList]
      rw [offset_after, hp, String.utf8Len_append, ← htext, hlen]
    obtain ⟨body, last, hlocated, hkind, hempty, hspan, hbody⟩ := ih hafter
    rw [List.append_assoc, ← hwhole] at hspan hbody
    refine ⟨locate p l :: body, last, ?_, hkind, hempty, hspan, fun t ht => ?_⟩
    · rw [located, hlocated]
      rfl
    · rcases List.mem_cons.mp ht with rfl | ht
      · rw [hwhole]
        refine isCut_locate hp htext ?_ (List.cons_ne_nil _ _)
        rw [← hwhole, ← hl]
        exact Lexeme.isLongest_classify c rest
      · exact hbody t ht

theorem located_start (p : Place) (ls : List Lexeme) :
    ∃ t rest, located p ls = t :: rest ∧ t.span.start = p.offset := by
  cases ls with
  | nil => exact ⟨_, _, rfl, rfl⟩
  | cons l ls => exact ⟨_, _, rfl, rfl⟩

theorem located_chain (p : Place) (ls : List Lexeme) :
    (located p ls).IsChain fun t next => t.span.stop = next.span.start := by
  induction ls generalizing p with
  | nil => exact .singleton _
  | cons l ls ih =>
    obtain ⟨t, rest, hlocated, hstart⟩ := located_start (p.after l) ls
    have htail := ih (p.after l)
    rw [located, hlocated] at *
    refine List.isChain_cons_cons.mpr ⟨?_, htail⟩
    rw [hstart, offset_after]
    rfl

theorem located_texts (p : Place) (ls : List Lexeme) :
    (located p ls).flatMap (fun t => t.text.toList) = Lexeme.textOf ls := by
  induction ls generalizing p with
  | nil => rfl
  | cons l ls ih =>
    rw [located, List.flatMap_cons, ih, Lexeme.textOf_cons]
    rfl

end

/-- Lexing cuts a text into its longest lexemes and loses nothing: the tokens
follow each other from the first byte to the last one, the last token alone is
the end of the input, and each other one is the longest lexeme at its place. -/
theorem lex_segments (source : String) :
    ∃ body last, (lex source).toList = body ++ [last] ∧
      last.kind = .endOfInput ∧ last.text = "" ∧
      last.span = ⟨source.utf8ByteSize, source.utf8ByteSize⟩ ∧
      (∀ t ∈ body, t.IsCut source) ∧
      (∀ first ∈ (lex source).toList.head?, first.span.start = 0) ∧
      (lex source).toList.IsChain (fun t next => t.span.stop = next.span.start) ∧
      String.join (body.map (·.text)) = source := by
  obtain ⟨body, last, hlex, hkind, hempty, hspan, hbody⟩ :=
    located_isCut (show Place.start.offset = String.utf8Len [] from rfl) source.toList
  rw [List.nil_append, ← String.utf8ByteSize_ofList, String.ofList_toList] at hspan
  rw [List.nil_append, String.ofList_toList] at hbody
  refine ⟨body, last, (toList_lex source).trans hlex, hkind, hempty, hspan, hbody, ?_, ?_, ?_⟩
  · obtain ⟨t, rest, hlocated, hstart⟩ := located_start .start (Lexeme.lexemes source.toList)
    rw [toList_lex, hlocated]
    exact fun first hfirst => Option.some.inj hfirst ▸ hstart
  · rw [toList_lex]
    exact located_chain _ _
  · have htexts := located_texts .start (Lexeme.lexemes source.toList)
    rw [hlex, List.flatMap_append, Lexeme.textOf_lexemes] at htexts
    simp only [List.flatMap_cons, List.flatMap_nil, hempty] at htexts
    refine String.toList_injective ?_
    rw [String.toList_join, List.flatMap_map]
    simpa using htexts

end Token
end ScriptBundler
