import ScriptBundler.Proofs.LexedStream
import ScriptBundler.Proofs.Segmentation

/-!
# Cutting a text between tokens

A token is the longest lexeme at its place, so it is still that when the text
ends somewhere behind it.  A text that is cut where a token starts therefore has
the tokens of its two parts, and a part between two such places has its own
tokens wherever it stands.
-/

namespace ScriptBundler
namespace Lexeme

theorem lexemes_textOf {cs : List Char} {before after : List Lexeme}
    (h : lexemes cs = before ++ after) : lexemes (textOf before) = before := by
  induction before generalizing cs with
  | nil => rw [textOf_nil, lexemes]
  | cons l before ih =>
    cases cs with
    | nil =>
      rw [lexemes] at h
      cases h
    | cons c rest =>
      rw [lexemes, List.cons_append] at h
      obtain ⟨rfl, hrest⟩ := List.cons.inj h
      have htake : rest.take (classify c rest).2 ++ textOf before =
          rest.take ((classify c rest).2 + (textOf before).length) := by
        have htext := congrArg textOf hrest
        rw [textOf_lexemes, textOf_append] at htext
        rw [List.take_add, htext, List.take_left]
      rw [textOf_cons, String.toList_ofList, List.cons_append, htake, lexemes,
        classify_take (Nat.le_add_right _ _), List.take_take,
        Nat.min_eq_left (Nat.le_add_right _ _), ← htake, List.drop_left' ?_, ih hrest]
      rw [List.length_take, Nat.min_eq_left (classify_le c rest)]

end Lexeme

namespace Token

def content (source : String) : List Lexeme :=
  ((lex source).toList.map lexeme).filter (fun l => l.kind != .endOfInput)

theorem content_eq (source : String) : content source = Lexeme.lexemes source.toList := by
  rw [content, lex_lexemes, List.filter_append, List.filter_eq_self.mpr, List.filter_cons_of_neg,
    List.filter_nil, List.append_nil]
  · exact nofun
  · intro l hl
    simpa using (Lexeme.isLongest_of_own (Lexeme.lexemes_of_mem hl)).ne_endOfInput

theorem exists_lexemes_before {p : Place} {ls : List Lexeme} {t : Token} (h : t ∈ located p ls) :
    ∃ before after, ls = before ++ after ∧
      t.span.start = p.offset + String.utf8Len (Lexeme.textOf before) := by
  induction ls generalizing p with
  | nil =>
    obtain rfl := List.mem_singleton.mp h
    exact ⟨[], [], rfl, rfl⟩
  | cons l ls ih =>
    rcases List.mem_cons.mp h with rfl | h
    · exact ⟨[], l :: ls, rfl, rfl⟩
    · obtain ⟨before, after, rfl, hstart⟩ := ih h
      refine ⟨l :: before, after, rfl, ?_⟩
      rw [hstart, offset_after, Lexeme.textOf_cons, String.utf8Len_append,
        ← String.utf8ByteSize_ofList l.text.toList, String.ofList_toList, Nat.add_assoc]

/-- A token that starts behind the lexemes `ls`, in front of the lexemes `ls'`. -/
theorem exists_cut {source : String} {t : Token} (ht : t ∈ lex source) :
    ∃ ls ls', Lexeme.lexemes source.toList = ls ++ ls' ∧
      source = String.ofList (Lexeme.textOf ls) ++ String.ofList (Lexeme.textOf ls') ∧
      (String.ofList (Lexeme.textOf ls)).utf8ByteSize = t.span.start := by
  rw [← Array.mem_toList_iff, toList_lex] at ht
  obtain ⟨ls, ls', hls, hstart⟩ := exists_lexemes_before ht
  have htext := congrArg Lexeme.textOf hls
  rw [Lexeme.textOf_lexemes, Lexeme.textOf_append] at htext
  refine ⟨ls, ls', hls, ?_, ?_⟩
  · rw [← String.ofList_append, ← htext, String.ofList_toList]
  · rw [String.utf8ByteSize_ofList, hstart, Place.start, Nat.zero_add]

theorem exists_cut_behind {source before after : String} (hsource : source = before ++ after)
    (h : ∃ t ∈ lex source, t.span.start = before.utf8ByteSize) :
    ∃ ls ls', Lexeme.lexemes source.toList = ls ++ ls' ∧ Lexeme.textOf ls = before.toList ∧
      Lexeme.textOf ls' = after.toList := by
  obtain ⟨t, ht, hstart⟩ := h
  obtain ⟨ls, ls', hls, htext, hbytes⟩ := exists_cut ht
  -- Two starts of a text that have as many bytes are the same.
  have hjoin := congrArg String.toByteArray (htext.symm.trans hsource)
  rw [String.toByteArray_append, String.toByteArray_append] at hjoin
  have hbefore : String.ofList (Lexeme.textOf ls) = before :=
    String.toByteArray_inj.mp (ByteArray.append_inj_left hjoin (hbytes.trans hstart))
  rw [hsource, ← hbefore, String.append_right_inj] at htext
  exact ⟨ls, ls', hls, by rw [← hbefore, String.toList_ofList],
    by rw [htext, String.toList_ofList]⟩

/-- Lexing can be cut wherever a token starts.  The tokens of a text are those of
the bytes in front of the token and then those of the rest, and a text between
two such places has its own tokens, whatever stands around it. -/
theorem lex_cut (source : String) :
    (∀ t ∈ lex source, ∃ before after, source = before ++ after ∧
      before.utf8ByteSize = t.span.start ∧
      content source = content before ++ content after) ∧
    ∀ before raw after, source = before ++ raw ++ after →
      (∃ t ∈ lex source, t.span.start = before.utf8ByteSize) →
      (∃ t ∈ lex source, t.span.start = (before ++ raw).utf8ByteSize) →
      content source = content before ++ content raw ++ content after := by
  simp only [content_eq]
  refine ⟨fun t ht => ?_, fun before raw after hsource hstart hstop => ?_⟩
  · obtain ⟨ls, ls', hls, htext, hbytes⟩ := exists_cut ht
    refine ⟨_, _, htext, hbytes, ?_⟩
    rw [String.toList_ofList, String.toList_ofList, Lexeme.lexemes_textOf hls,
      Lexeme.lexemes_suffix hls, hls]
  · obtain ⟨ls, ls', hls, htext, htext'⟩ :=
      exists_cut_behind (hsource.trans String.append_assoc) hstart
    obtain ⟨ms, ms', hms, hraw, hafter⟩ := exists_cut_behind hsource hstop
    rw [String.toList_append, ← htext] at hraw
    rw [← htext, ← hafter, Lexeme.lexemes_textOf hls, Lexeme.lexemes_suffix hms]
    rcases List.append_eq_append_iff.mp (hls.symm.trans hms) with ⟨ns, rfl, rfl⟩ | ⟨ns, rfl, rfl⟩
    · -- The lexemes of the text between the two places.
      rw [Lexeme.textOf_append, List.append_cancel_left_eq] at hraw
      have hns := Lexeme.lexemes_textOf (Lexeme.lexemes_suffix hls)
      rw [← hraw, hns, hms]
    · rw [Lexeme.textOf_append, List.append_assoc, List.self_eq_append_right,
        List.append_eq_nil_iff] at hraw
      have hns := Lexeme.lexemes_textOf (Lexeme.lexemes_suffix hms)
      rw [hraw.1, Lexeme.lexemes] at hns
      subst hns
      rw [hraw.2, Lexeme.lexemes, List.append_nil, hls]
      rfl

/-- A number that could go on stands between a point and a sign. -/
theorem lex_cut_number :
    content "a=.5e+b" = content "a=" ++ content ".5" ++ content "e+b" ∧
      content ".5" = [⟨.number, ".5"⟩] := by
  refine ⟨(lex_cut "a=.5e+b").2 "a=" ".5" "e+b" (by decide +kernel) ?_ ?_, by decide +kernel⟩
  · exact ⟨⟨.number, ".5", ⟨2, 4⟩, 1, 3⟩, by decide +kernel, by decide +kernel⟩
  · exact ⟨⟨.identifier, "e", ⟨4, 5⟩, 1, 5⟩, by decide +kernel, by decide +kernel⟩

end Token
end ScriptBundler
