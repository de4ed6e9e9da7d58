import ScriptBundler.Proofs.Offsets
import ScriptBundler.Proofs.Positions

/-!
# Literals by their characters

Strings and templates are put together from tokens, and an escape skips a whole
token.  The characters say the same: a backslash and the character behind it are
read as one, and a literal goes on to the first of its closing characters that
is not read in this way.
-/

namespace ScriptBundler

/-!
# Stretches of text

A stretch goes on to the first place where reading stops.  An escape takes the
character behind it along.
-/

namespace Text

/-- Cut a text at the first place where reading stops.  A backslash and the
character behind it are read as one. -/
def stretch (stops : List Char → Bool) : List Char → List Char × List Char
  | [] => ([], [])
  | [c] => if stops [c] then ([], [c]) else ([c], [])
  | c :: d :: cs =>
    if stops (c :: d :: cs) then ([], c :: d :: cs)
    else if c = '\\' then (stretch stops cs).map (fun literal => c :: d :: literal) id
    else (stretch stops (d :: cs)).map (fun literal => c :: literal) id

def endsString (quote : Char) : List Char → Bool
  | [] => false
  | c :: _ => c == quote || isLineBreak c

def endsStretch (cs : List Char) : Bool :=
  ['\x60'].isPrefixOf cs || ['$', '\x7b'].isPrefixOf cs

section
variable {stops : List Char → Bool} {c : Char} {cs text more : List Char}

theorem stretch_append_rest (stops : List Char → Bool) (cs : List Char) :
    (stretch stops cs).1 ++ (stretch stops cs).2 = cs := by
  fun_induction stretch stops cs with
  | case1 | case2 | case3 | case4 => rfl
  | case5 d cs _ ih => exact congrArg ('\\' :: d :: ·) ih
  | case6 c d cs _ _ ih => exact congrArg (c :: ·) ih

theorem stretch_stop (h : stops (c :: cs) = true) : stretch stops (c :: cs) = ([], c :: cs) := by
  cases cs <;> rw [stretch, if_pos h]

theorem stretch_cons (hc : c ≠ '\\') (h : stops (c :: cs) = false) :
    stretch stops (c :: cs) = (c :: (stretch stops cs).1, (stretch stops cs).2) := by
  cases cs with
  | nil => simp [stretch, h]
  | cons d cs =>
    simp only [stretch, h, Bool.false_eq_true, if_false, hc]
    rfl

theorem stretch_escape (h : stops ('\\' :: c :: cs) = false) :
    stretch stops ('\\' :: c :: cs) =
      ('\\' :: c :: (stretch stops cs).1, (stretch stops cs).2) := by
  simp only [stretch, h, Bool.false_eq_true, if_false, if_true]
  rfl

theorem stretch_append (h : ∀ front c back, text = front ++ c :: back →
      c ≠ '\\' ∧ stops (c :: (back ++ more)) = false) :
    stretch stops (text ++ more) = (text ++ (stretch stops more).1, (stretch stops more).2) := by
  induction text with
  | nil => rfl
  | cons c text ih =>
    obtain ⟨hc, hstops⟩ := h [] c text rfl
    rw [List.cons_append, stretch_cons hc hstops,
      ih fun front d back htext => h (c :: front) d back (by rw [htext]; rfl)]
    rfl

end
end Text

namespace Grammar

open Grammar.Parser Text

/-!
# Reading token by token

An escape skips a token.  As far as the end of a literal goes, it might as well skip
a character.
-/

namespace Stream

/-- The state behind the tokens in front of a position. -/
def readTo (ts : Stream) (s : Progress) (j : Nat) : Progress :=
  { s with pos := j, lastEnd := (ts.token (j - 1)).span.stop }

@[simp] theorem pos_readTo (ts : Stream) (s : Progress) (j : Nat) : (ts.readTo s j).pos = j :=
  rfl

end Stream

section
variable {α β : Type} {ts : Stream} {s s' : Progress} {x : Parser α} {f : α → Parser β} {a : α}

theorem bind_run (h : x ts s = .ok a s') : (x >>= f) ts s = f a ts s' := by
  simp only [Bind.bind, ReaderT.bind, EStateM.bind, h]

variable {g : Token → Parser β}

theorem rawPeek_bind : (rawPeek >>= g) ts s = g (ts.token s.pos) ts s :=
  rfl

theorem rawAdvance_bind (h : (ts.token s.pos).kind ≠ .endOfInput) :
    (rawAdvance >>= g) ts s = g (ts.token s.pos) ts (ts.readTo s (s.pos + 1)) :=
  bind_run (if_neg h)

end

section
variable {ts : Stream} {s : Progress} {quote : Token} {n : Nat}

theorem stringBody_end (hk : (ts.token s.pos).kind = .endOfInput ∨ (ts.token s.pos).kind = .newline) :
    stringBody quote (n + 1) ts s = .error (.unexpected quote) s := by
  rw [stringBody, rawPeek_bind]
  rcases hk with hk | hk <;> simp only [hk] <;> rfl

theorem stringBody_escape (hk : (ts.token s.pos).kind = .punct .escape)
    (hend : (ts.token (s.pos + 1)).kind ≠ .endOfInput) :
    stringBody quote (n + 1) ts s = stringBody quote n ts (ts.readTo s (s.pos + 2)) := by
  rw [stringBody, rawPeek_bind]
  simp only [hk]
  rw [rawAdvance_bind (readable hk), rawPeek_bind]
  exact (congrFun (congrFun (if_neg hend) ts) _).trans (rawAdvance_bind hend)

theorem stringBody_escape_end (hk : (ts.token s.pos).kind = .punct .escape)
    (hend : (ts.token (s.pos + 1)).kind = .endOfInput) :
    ∃ s', stringBody quote (n + 1) ts s = .error (.unexpected quote) s' := by
  rw [stringBody, rawPeek_bind]
  simp only [hk]
  rw [rawAdvance_bind (readable hk), rawPeek_bind]
  exact ⟨_, congrFun (congrFun (if_pos hend) ts) _⟩

theorem stringBody_plain (hend : (ts.token s.pos).kind ≠ .endOfInput)
    (hline : (ts.token s.pos).kind ≠ .newline) (hescape : (ts.token s.pos).kind ≠ .punct .escape)
    (hquote : (ts.token s.pos).kind = .stringQuote → (ts.token s.pos).text ≠ quote.text) :
    stringBody quote (n + 1) ts s = stringBody quote n ts (ts.readTo s (s.pos + 1)) := by
  rw [stringBody, rawPeek_bind]
  refine (congrFun (congrFun (show _ = (rawAdvance >>= fun _ => stringBody quote n) from ?_) ts)
    s).trans (rawAdvance_bind hend)
  by_cases hk : (ts.token s.pos).kind = .stringQuote
  · simp only [hk, if_neg (hquote hk)]
  · split <;> first | contradiction | rfl

theorem stringBody_close (hk : (ts.token s.pos).kind = .stringQuote)
    (htext : (ts.token s.pos).text = quote.text) :
    stringBody quote (n + 1) ts s = .ok () (ts.readTo s (s.pos + 1)) := by
  rw [stringBody, rawPeek_bind]
  simp only [hk]
  rw [rawAdvance_bind (readable hk), if_pos htext]
  rfl

end

namespace Stream.Holds

section
variable {ts : Stream} {cs : List Char} {c : Char} {i : Nat}

section
variable (h : ts.Holds (Lexeme.lexemes cs))
include h

section
variable (hk : (ts.token i).kind ≠ .endOfInput)
include hk

theorem eq_singleton (hc : c ∈ (ts.token i).text.toList) (halone : c ∈ Lexeme.alone) :
    (ts.token i).text.toList = [c] ∧ (ts.token i).kind = (Lexeme.classify c []).1 :=
  Lexeme.eq_singleton_of_own (l := (ts.token i).lexeme) (h.lexemes_token hk) hc halone

theorem notMem_alone {t : List Char} (htext : (ts.token i).text.toList = c :: t) :
    ∀ d ∈ t, d ∉ Lexeme.alone := by
  intro d hd halone
  have hsingle := (h.eq_singleton hk (htext ▸ List.mem_cons_of_mem c hd) halone).1
  rw [(List.cons.inj (htext.symm.trans hsingle)).2] at hd
  cases hd

theorem exists_cons : ∃ c t, (ts.token i).text.toList = c :: t :=
  have ⟨c, t, htext, _⟩ :=
    Lexeme.lexemes_eq_singleton (l := (ts.token i).lexeme) (h.lexemes_token hk)
  ⟨c, t, htext⟩

end

theorem textFrom_mark {mark : Punctuator} (hi : i < ts.tokens.size)
    (hk : (ts.token i).kind = .punct mark) : ts.textFrom i = mark.chars ++ ts.textFrom (i + 1) := by
  rw [textFrom_succ hi, h.text_mark hk, String.toList_ofList]

theorem textFrom_end (hi : i < ts.tokens.size) (hk : (ts.token i).kind = .endOfInput) :
    ts.textFrom i = [] := by
  have hlast : i + 1 = ts.tokens.size :=
    Nat.le_antisymm hi (Nat.le_of_not_lt fun hlt => (h.ne_end hlt).2 hk)
  have htext : (ts.token i).text = "" := by
    rw [← h.text_end, ← hlast, Nat.add_sub_cancel]
  rw [textFrom_succ hi, htext, hlast, textFrom, textBetween,
    Array.extract_empty_of_stop_le_start (Nat.le_of_eq (Nat.min_self _).symm)]
  rfl

theorem isLexeme {k : Token.Kind} (hk : (ts.token i).kind = k) (hend : k ≠ .endOfInput)
    (hany : k ≠ .any) : Lexeme.IsLexeme k (ts.token i).text.toList :=
  Lexeme.isLexeme_of_own (l := (ts.token i).lexeme) (h.lexemes_token (hk.trans_ne hend)) hk hany

theorem toList_stringQuote (hk : (ts.token i).kind = .stringQuote) :
    ∃ q, (q = '"' ∨ q = '\'') ∧ (ts.token i).text.toList = [q] := by
  have hlexeme := h.isLexeme hk nofun nofun
  generalize (ts.token i).text.toList = text at hlexeme ⊢
  cases hlexeme with
  | stringQuote hquote => exact ⟨_, hquote, rfl⟩

theorem toList_templateQuote (hk : (ts.token i).kind = .templateQuote) :
    (ts.token i).text.toList = ['\x60'] := by
  have hlexeme := h.isLexeme hk nofun nofun
  generalize (ts.token i).text.toList = text at hlexeme ⊢
  cases hlexeme
  rfl

theorem textFrom_injective {j : Nat} (hi : i < ts.tokens.size) (hj : j < ts.tokens.size)
    (heq : ts.textFrom i = ts.textFrom j) : i = j := by
  have hlt : ∀ {i j}, i < j → j < ts.tokens.size → ts.textFrom i ≠ ts.textFrom j := by
    intro i j hij hj heq
    obtain ⟨c, t, htext⟩ := h.exists_cons (i := i) (h.ne_end (by omega)).2
    have hlength := congrArg List.length heq
    rw [textFrom_succ (by omega), htext,
      textFrom_eq (show i + 1 ≤ j from hij) (Nat.le_of_lt hj)] at hlength
    simp only [List.length_append, List.length_cons] at hlength
    omega
  rcases Nat.lt_trichotomy i j with hij | hij | hij
  · exact absurd heq (hlt hij hj)
  · exact hij
  · exact absurd heq.symm (hlt hij hi)

theorem textFrom_escape (hi : i + 1 < ts.tokens.size) (hk : (ts.token i).kind = .punct .escape)
    (hend : (ts.token (i + 1)).kind ≠ .endOfInput) :
    ∃ c t, (ts.token (i + 1)).text.toList = c :: t ∧ (∀ d ∈ t, d ∉ Lexeme.alone) ∧
      ts.textFrom i = '\\' :: c :: (t ++ ts.textFrom (i + 2)) := by
  obtain ⟨c, t, htext⟩ := h.exists_cons hend
  refine ⟨c, t, htext, h.notMem_alone hend htext, ?_⟩
  rw [h.textFrom_mark (Nat.lt_of_succ_lt hi) hk, textFrom_succ hi, htext]
  rfl

end

end
end Stream.Holds

section
variable {ts : Stream} {s : Progress} {quote : Token} {q : Char} {cs : List Char} {n : Nat}

theorem stretch_endsString {text more : List Char}
    (h : ∀ c ∈ text, c ≠ '\\' ∧ c ≠ q ∧ isLineBreak c = false) :
    stretch (endsString q) (text ++ more) =
      (text ++ (stretch (endsString q) more).1, (stretch (endsString q) more).2) := by
  refine stretch_append fun front c back htext => ?_
  obtain ⟨hescape, hquote, hbreak⟩ :=
    h c (by rw [htext]; exact List.mem_append_right _ List.mem_cons_self)
  exact ⟨hescape, by rw [endsString, hbreak, Bool.or_false, beq_eq_false_iff_ne.mpr hquote]⟩

/-- What reading the rest of a string comes to: the first quote that is not
escaped, or a failure if there is none in the line. -/
def StringRun (ts : Stream) (quote : Token) (q : Char) (s : Progress) (rest : List Char)
    (result : EStateM.Result Failure Progress Unit) : Prop :=
  (∃ literal j, s.pos < j ∧ j < ts.tokens.size ∧
    stretch (endsString q) rest = (literal, q :: ts.textFrom j) ∧ result = .ok () (ts.readTo s j)) ∨
  (∀ after, (stretch (endsString q) rest).2 ≠ q :: after) ∧
    ∃ s', result = .error (.unexpected quote) s'

theorem StringRun.extend {rest rest' : List Char} {p : Nat}
    {result : EStateM.Result Failure Progress Unit}
    (h : StringRun ts quote q (ts.readTo s p) rest' result) (hp : s.pos < p) (text : List Char)
    (hrest : stretch (endsString q) rest =
      (text ++ (stretch (endsString q) rest').1, (stretch (endsString q) rest').2)) :
    StringRun ts quote q s rest result := by
  rcases h with ⟨literal, j, hlt, hj, hstretch, hok⟩ | ⟨hno, hfails⟩
  · exact .inl ⟨text ++ literal, j, Nat.lt_trans hp hlt, hj, by rw [hrest, hstretch], hok⟩
  · exact .inr ⟨fun after => by rw [hrest]; exact hno after, hfails⟩

theorem stringBody_stretch (hts : ts.Holds (Lexeme.lexemes cs)) (hquote : quote.text.toList = [q])
    (hq : q = '"' ∨ q = '\'') (hs : s.pos < ts.tokens.size) (hn : ts.tokens.size ≤ s.pos + n) :
    StringRun ts quote q s (ts.textFrom s.pos) (stringBody quote n ts s) := by
  have halone : q ∈ Lexeme.alone := by rcases hq with rfl | rfl <;> decide
  have hbreakq : isLineBreak q = false := by rcases hq with rfl | rfl <;> rfl
  have hescapeq : ∀ cs, endsString q ('\\' :: cs) = false := by
    rcases hq with rfl | rfl <;> exact fun _ => rfl
  induction n generalizing s with
  | zero => omega
  | succ n ih =>
    have := hts.ended
    have hfrom := Stream.textFrom_succ hs
    by_cases hend : (ts.token s.pos).kind = .endOfInput
    · refine .inr ⟨fun after => ?_, s, stringBody_end (.inl hend)⟩
      rw [hts.textFrom_end hs hend]
      exact (List.cons_ne_nil _ _).symm
    have hnext : s.pos + 1 < ts.tokens.size := Stream.succ_lt hs hend
    have hown := hts.lexemes_token hend
    rcases Lexeme.lineBreaks_of_own (l := (ts.token s.pos).lexeme) hown with
      ⟨hline, c, htext, hc⟩ | ⟨hline, hbreak⟩
    · refine .inr ⟨fun after => ?_, s, stringBody_end (.inr hline)⟩
      rw [hfrom, show (ts.token s.pos).text.toList = [c] from htext]
      change (stretch (endsString q) (c :: _)).2 ≠ _
      rw [stretch_stop (by rw [endsString, hc, Bool.or_true])]
      intro heq
      rw [(List.cons.inj heq).1, hbreakq] at hc
      cases hc
    by_cases hescape : (ts.token s.pos).kind = .punct .escape
    · by_cases hend' : (ts.token (s.pos + 1)).kind = .endOfInput
      · refine .inr ⟨fun after => ?_, stringBody_escape_end hescape hend'⟩
        rw [hts.textFrom_mark hs hescape, hts.textFrom_end hnext hend']
        change (stretch (endsString q) ['\\']).2 ≠ _
        rw [stretch, hescapeq]
        exact (List.cons_ne_nil _ _).symm
      · obtain ⟨c, t, _, ht, htext⟩ := hts.textFrom_escape hnext hescape hend'
        rw [stringBody_escape hescape hend']
        refine (ih (Stream.succ_lt hnext hend') (by simp only [Stream.pos_readTo]; omega)).extend
          (by omega) ('\\' :: c :: t) ?_
        rw [htext, stretch_escape (hescapeq _), stretch_endsString]
        · rfl
        · refine fun d hd => ⟨fun h => ht d hd (h ▸ by decide), fun h => ht d hd (h ▸ halone), ?_⟩
          exact Bool.eq_false_iff.mpr fun h => ht d hd (Lexeme.mem_alone_of_isLineBreak h)
    by_cases hclose : (ts.token s.pos).kind = .stringQuote ∧ (ts.token s.pos).text = quote.text
    · refine .inl ⟨[], s.pos + 1, Nat.lt_succ_self _, hnext, ?_, stringBody_close hclose.1 hclose.2⟩
      rw [hfrom, hclose.2, hquote]
      exact stretch_stop (by rw [endsString, beq_self_eq_true, Bool.true_or])
    · rw [stringBody_plain hend hline hescape fun hk htext => hclose ⟨hk, htext⟩]
      refine (ih hnext (by simp only [Stream.pos_readTo]; omega)).extend (Nat.lt_succ_self _)
        (ts.token s.pos).text.toList ?_
      rw [hfrom]
      refine stretch_endsString fun c hc => ⟨?_, ?_, hbreak c hc⟩
      · rintro rfl
        exact hescape (hts.eq_singleton hend hc (by decide)).2
      · rintro rfl
        obtain ⟨htext, hk⟩ := hts.eq_singleton hend hc halone
        refine hclose ⟨by rw [hk]; rcases hq with rfl | rfl <;> rfl, ?_⟩
        rw [← String.toList_inj, htext, hquote]

end

/-!
# Templates

The dollar sign that starts a substitution belongs to the name in front of it.
-/

section
variable {ts : Stream} {s : Progress} {sub : Parser Unit} {mark : Token} {n : Nat}

theorem templateBody_end (hk : (ts.token s.pos).kind = .endOfInput) :
    templateBody sub mark (n + 1) ts s = .error (.unexpected mark) s := by
  rw [templateBody, rawPeek_bind]
  simp only [hk]
  rfl

theorem templateBody_close (hk : (ts.token s.pos).kind = .templateQuote) :
    templateBody sub mark (n + 1) ts s = .ok () (ts.readTo s (s.pos + 1)) := by
  rw [templateBody, rawPeek_bind]
  simp only [hk]
  exact rawAdvance_bind (readable hk)

theorem templateBody_escape_end (hk : (ts.token s.pos).kind = .punct .escape)
    (hend : (ts.token (s.pos + 1)).kind = .endOfInput) :
    ∃ s', templateBody sub mark (n + 1) ts s = .error (.unexpected mark) s' := by
  rw [templateBody, rawPeek_bind]
  simp only [hk]
  rw [rawAdvance_bind (readable hk), bind_run (if_pos hend)]
  exact ⟨_, congrFun (congrFun (if_pos hend) ts) _⟩

theorem templateBody_escape_then (hk : (ts.token s.pos).kind = .punct .escape)
    (hword : (ts.token (s.pos + 1)).kind = .identifier ∧
      1 < (ts.token (s.pos + 1)).text.length ∧ (ts.token (s.pos + 1)).endsWith '$' = true)
    (hbrace : (ts.token (s.pos + 2)).kind = .punct .lBrace) :
    templateBody sub mark (n + 1) ts s =
      (sub >>= fun _ => templateBody sub mark n) ts (ts.readTo s (s.pos + 3)) := by
  have hend := readable hword.1
  rw [templateBody, rawPeek_bind]
  simp only [hk]
  rw [rawAdvance_bind (readable hk), rawAdvance_bind hend]
  refine (congrFun (congrFun (if_neg hend) ts) _).trans ?_
  refine (congrFun (congrFun (if_pos hword) ts) _).trans (rawPeek_bind.trans ?_)
  refine (congrFun (congrFun (if_pos hbrace) ts) _).trans ?_
  exact rawAdvance_bind (readable hbrace)

theorem templateBody_escape (hk : (ts.token s.pos).kind = .punct .escape)
    (hend : (ts.token (s.pos + 1)).kind ≠ .endOfInput)
    (hno : ¬ (((ts.token (s.pos + 1)).kind = .identifier ∧
      1 < (ts.token (s.pos + 1)).text.length ∧ (ts.token (s.pos + 1)).endsWith '$' = true) ∧
        (ts.token (s.pos + 2)).kind = .punct .lBrace)) :
    templateBody sub mark (n + 1) ts s = templateBody sub mark n ts (ts.readTo s (s.pos + 2)) := by
  rw [templateBody, rawPeek_bind]
  simp only [hk]
  rw [rawAdvance_bind (readable hk), rawAdvance_bind hend]
  refine (congrFun (congrFun (if_neg hend) ts) _).trans ?_
  by_cases hword : (ts.token (s.pos + 1)).kind = .identifier ∧
      1 < (ts.token (s.pos + 1)).text.length ∧ (ts.token (s.pos + 1)).endsWith '$' = true
  · refine (congrFun (congrFun (if_pos hword) ts) _).trans (rawPeek_bind.trans ?_)
    exact congrFun (congrFun (if_neg fun h => hno ⟨hword, h⟩) ts) _
  · exact congrFun (congrFun (if_neg hword) ts) _

theorem templateBody_then (hk : (ts.token s.pos).kind = .identifier)
    (hsub : (ts.token s.pos).endsWith '$' = true ∧ (ts.token (s.pos + 1)).kind = .punct .lBrace) :
    templateBody sub mark (n + 1) ts s =
      (sub >>= fun _ => templateBody sub mark n) ts (ts.readTo s (s.pos + 2)) := by
  rw [templateBody, rawPeek_bind]
  simp only [hk]
  refine (rawAdvance_bind (readable hk)).trans ?_
  refine (congrFun (congrFun (if_pos hsub) ts) _).trans ?_
  exact rawAdvance_bind (readable hsub.2)

theorem templateBody_plain (hend : (ts.token s.pos).kind ≠ .endOfInput)
    (hescape : (ts.token s.pos).kind ≠ .punct .escape)
    (hquote : (ts.token s.pos).kind ≠ .templateQuote)
    (hno : (ts.token s.pos).kind = .identifier → ¬ ((ts.token s.pos).endsWith '$' = true ∧
      (ts.token (s.pos + 1)).kind = .punct .lBrace)) :
    templateBody sub mark (n + 1) ts s = templateBody sub mark n ts (ts.readTo s (s.pos + 1)) := by
  rw [templateBody, rawPeek_bind]
  by_cases hk : (ts.token s.pos).kind = .identifier
  · simp only [hk]
    refine (rawAdvance_bind hend).trans ?_
    exact congrFun (congrFun (if_neg (hno hk)) ts) _
  · refine (congrFun (congrFun (show _ = (rawAdvance >>= fun _ => templateBody sub mark n) from ?_)
      ts) s).trans (rawAdvance_bind hend)
    split <;> first | contradiction | rfl

end

section
variable {text more : List Char}

theorem stretch_endsStretch (h : ∀ c ∈ text, c ≠ '\\' ∧ c ≠ '\x60') (hbrace : '\x7b' ∉ text.tail)
    (hdollar : text.getLast? = some '$' → more.head? ≠ some '\x7b') :
    stretch endsStretch (text ++ more) =
      (text ++ (stretch endsStretch more).1, (stretch endsStretch more).2) := by
  refine stretch_append fun front c back htext => ?_
  obtain ⟨hescape, hquote⟩ := h c (by rw [htext]; exact List.mem_append_right _ List.mem_cons_self)
  refine ⟨hescape, Bool.eq_false_iff.mpr fun hends => ?_⟩
  rw [endsStretch, Bool.or_eq_true, List.isPrefixOf_iff_prefix, List.isPrefixOf_iff_prefix,
    List.cons_prefix_cons, List.cons_prefix_cons] at hends
  rcases hends with ⟨rfl, _⟩ | ⟨rfl, hnext⟩
  · exact hquote rfl
  · cases back with
    | nil =>
      refine hdollar (by rw [htext, List.getLast?_concat]) ?_
      obtain ⟨rest, rfl⟩ := hnext
      rfl
    | cons d back =>
      obtain ⟨rfl, _⟩ := List.cons_prefix_cons.mp hnext
      refine hbrace ?_
      cases front with
      | nil =>
        rw [htext]
        exact List.mem_cons_self
      | cons first front =>
        rw [htext]
        exact List.mem_append_right _ (List.mem_cons_of_mem _ List.mem_cons_self)

theorem stretch_substitution (h : ∀ c ∈ text, c ≠ '\\' ∧ c ≠ '\x60')
    (hbrace : '\x7b' ∉ text.tail) :
    stretch endsStretch (text ++ '$' :: '\x7b' :: more) = (text, '$' :: '\x7b' :: more) := by
  have hdollar : ('$' :: '\x7b' :: more).head? ≠ some '\x7b' := by simp
  rw [stretch_endsStretch h hbrace fun _ => hdollar, stretch_stop rfl, List.append_nil]

end

section
variable {ts : Stream} {s : Progress} {sub : Parser Unit} {mark : Token} {cs : List Char}
  {i n : Nat}

theorem Stream.Holds.kind_of_brace (h : ts.Holds (Lexeme.lexemes cs)) (hi : i < ts.tokens.size)
    (hbrace : (ts.textFrom i).head? = some '\x7b') : (ts.token i).kind = .punct .lBrace := by
  by_cases hend : (ts.token i).kind = .endOfInput
  · rw [h.textFrom_end hi hend] at hbrace
    cases hbrace
  · obtain ⟨c, t, htext⟩ := h.exists_cons hend
    rw [Stream.textFrom_succ hi, htext] at hbrace
    obtain rfl := Option.some.inj hbrace
    exact (h.eq_singleton hend (htext ▸ List.mem_cons_self) (by decide)).2

theorem Stream.Holds.substitution (h : ts.Holds (Lexeme.lexemes cs)) (hi : i + 1 < ts.tokens.size)
    (hend : (ts.token i).kind ≠ .endOfInput)
    (hdollar : (ts.token i).text.toList.getLast? = some '$')
    (hbrace : (ts.textFrom (i + 1)).head? = some '\x7b') :
    (ts.token i).kind = .identifier ∧ (ts.token i).endsWith '$' = true ∧
      (ts.token (i + 1)).kind = .punct .lBrace :=
  ⟨Lexeme.kind_of_dollar (l := (ts.token i).lexeme) (h.lexemes_token hend)
    (List.mem_of_getLast? hdollar), beq_iff_eq.mpr hdollar, h.kind_of_brace hi hbrace⟩

/-- What reading the rest of a template comes to: its end, the next
substitution, or a failure at the end of the input. -/
def TemplateRun (ts : Stream) (sub : Parser Unit) (mark : Token) (s : Progress) (rest : List Char)
    (n : Nat) (result : EStateM.Result Failure Progress Unit) : Prop :=
  (∃ literal j, s.pos < j ∧ j < ts.tokens.size ∧
    stretch endsStretch rest = (literal, '\x60' :: ts.textFrom j) ∧
    result = .ok () (ts.readTo s j)) ∨
  (∃ literal j m, s.pos < j ∧ j < ts.tokens.size ∧ m < n ∧ ts.tokens.size ≤ j + m ∧
    stretch endsStretch rest = (literal, '$' :: '\x7b' :: ts.textFrom j) ∧
    result = (sub >>= fun _ => templateBody sub mark m) ts (ts.readTo s j)) ∨
  (stretch endsStretch rest).2 = [] ∧ ∃ s', result = .error (.unexpected mark) s'

theorem TemplateRun.extend {rest rest' : List Char} {p : Nat}
    {result : EStateM.Result Failure Progress Unit}
    (h : TemplateRun ts sub mark (ts.readTo s p) rest' n result) (hp : s.pos < p)
    (text : List Char) (hrest : stretch endsStretch rest =
      (text ++ (stretch endsStretch rest').1, (stretch endsStretch rest').2)) :
    TemplateRun ts sub mark s rest (n + 1) result := by
  rcases h with ⟨literal, j, hlt, hj, hstretch, hok⟩ |
    ⟨literal, j, m, hlt, hj, hm, hn, hstretch, hrun⟩ | ⟨hend, hfails⟩
  · exact .inl ⟨text ++ literal, j, Nat.lt_trans hp hlt, hj, by rw [hrest, hstretch], hok⟩
  · exact .inr (.inl ⟨text ++ literal, j, m, Nat.lt_trans hp hlt, hj, Nat.lt_succ_of_lt hm, hn,
      by rw [hrest, hstretch], hrun⟩)
  · exact .inr (.inr ⟨by rw [hrest, hend], hfails⟩)

section
variable {rest literal : List Char} {j : Nat} {result : EStateM.Result Failure Progress Unit}

theorem TemplateRun.of_close (h : TemplateRun ts sub mark s rest n result)
    (hts : ts.Holds (Lexeme.lexemes cs)) (hj : j < ts.tokens.size)
    (hrest : stretch endsStretch rest = (literal, '\x60' :: ts.textFrom j)) :
    result = .ok () (ts.readTo s j) := by
  rcases h with ⟨_, j', _, hj', hstretch, hok⟩ | ⟨_, _, _, _, _, _, _, hstretch, _⟩ | ⟨hend, _⟩
  · have hsame := (List.cons.inj (Prod.mk.inj (hrest.symm.trans hstretch)).2).2
    rw [hok, hts.textFrom_injective hj hj' hsame]
  · exact absurd (List.cons.inj (Prod.mk.inj (hrest.symm.trans hstretch)).2).1 (by decide)
  · rw [hrest] at hend
    cases hend

theorem TemplateRun.of_substitution (h : TemplateRun ts sub mark s rest n result)
    (hts : ts.Holds (Lexeme.lexemes cs)) (hj : j < ts.tokens.size)
    (hrest : stretch endsStretch rest = (literal, '$' :: '\x7b' :: ts.textFrom j)) :
    ∃ m, ts.tokens.size ≤ j + m ∧
      result = (sub >>= fun _ => templateBody sub mark m) ts (ts.readTo s j) := by
  rcases h with ⟨_, _, _, _, hstretch, _⟩ | ⟨_, j', m, _, hj', _, hm, hstretch, hrun⟩ | ⟨hend, _⟩
  · exact absurd (List.cons.inj (Prod.mk.inj (hrest.symm.trans hstretch)).2).1 (by decide)
  · have hsame := (List.cons.inj (List.cons.inj (Prod.mk.inj (hrest.symm.trans hstretch)).2).2).2
    obtain rfl := hts.textFrom_injective hj hj' hsame
    exact ⟨m, hm, hrun⟩
  · rw [hrest] at hend
    cases hend

end

theorem templateBody_stretch (hts : ts.Holds (Lexeme.lexemes cs)) (hs : s.pos < ts.tokens.size)
    (hn : ts.tokens.size ≤ s.pos + n) :
    TemplateRun ts sub mark s (ts.textFrom s.pos) n (templateBody sub mark n ts s) := by
  induction n generalizing s with
  | zero => omega
  | succ n ih =>
    have := hts.ended
    have hfrom := Stream.textFrom_succ hs
    by_cases hend : (ts.token s.pos).kind = .endOfInput
    · refine .inr (.inr ⟨?_, s, templateBody_end hend⟩)
      rw [hts.textFrom_end hs hend]
      rfl
    have hnext : s.pos + 1 < ts.tokens.size := Stream.succ_lt hs hend
    have hown := hts.lexemes_token hend
    by_cases hescape : (ts.token s.pos).kind = .punct .escape
    · by_cases hend' : (ts.token (s.pos + 1)).kind = .endOfInput
      · refine .inr (.inr ⟨?_, templateBody_escape_end hescape hend'⟩)
        rw [hts.textFrom_mark hs hescape, hts.textFrom_end hnext hend']
        rfl
      have hnext' : s.pos + 2 < ts.tokens.size := Stream.succ_lt hnext hend'
      obtain ⟨c, t, htext, ht, hrest⟩ := hts.textFrom_escape hnext hescape hend'
      have hplain : ∀ d ∈ t, d ≠ '\\' ∧ d ≠ '\x60' :=
        fun d hd => ⟨fun h => ht d hd (h ▸ by decide), fun h => ht d hd (h ▸ by decide)⟩
      have hbrace : '\x7b' ∉ t := fun hmem => ht _ hmem (by decide)
      by_cases hsub : ((ts.token (s.pos + 1)).kind = .identifier ∧
          1 < (ts.token (s.pos + 1)).text.length ∧ (ts.token (s.pos + 1)).endsWith '$' = true) ∧
            (ts.token (s.pos + 2)).kind = .punct .lBrace
      · obtain ⟨hword, hmark⟩ := hsub
        have hlength := hword.2.1
        have hdollar := hword.2.2
        obtain ⟨w, rfl⟩ : ∃ w, t = w ++ ['$'] := by
          rw [Token.endsWith, beq_iff_eq, htext, List.getLast?_cons] at hdollar
          rw [← String.length_toList, htext] at hlength
          refine List.getLast?_eq_some_iff.mp ?_
          cases t with
          | nil => exact absurd hlength (Nat.lt_irrefl 1)
          | cons d t => rwa [List.getLast?_cons] at hdollar ⊢
        refine .inr (.inl ⟨'\\' :: c :: w, s.pos + 3, n, by omega,
          Stream.succ_lt hnext' (readable hmark), Nat.lt_succ_self n, by omega, ?_,
          templateBody_escape_then hescape hword hmark⟩)
        have hstretch : stretch endsStretch (w ++ '$' :: '\x7b' :: ts.textFrom (s.pos + 3)) =
            (w, '$' :: '\x7b' :: ts.textFrom (s.pos + 3)) :=
          stretch_substitution (fun d hd => hplain d (List.mem_append_left _ hd))
            fun hmem => hbrace (List.mem_append_left _ (List.mem_of_mem_tail hmem))
        rw [hrest, stretch_escape rfl, hts.textFrom_mark hnext' hmark, List.append_assoc]
        exact congrArg (fun found => ('\\' :: c :: found.1, found.2)) hstretch
      · rw [templateBody_escape hescape hend' hsub]
        refine (ih hnext' (by simp only [Stream.pos_readTo]; omega)).extend
          (by omega) ('\\' :: c :: t) ?_
        rw [hrest, stretch_escape rfl, stretch_endsStretch hplain
          (fun hmem => hbrace (List.mem_of_mem_tail hmem)) fun hdollar hmark => hsub ?_]
        · rfl
        have hlast : (ts.token (s.pos + 1)).text.toList.getLast? = some '$' := by
          rw [htext, List.getLast?_cons, hdollar]
          rfl
        obtain ⟨hname, hends, hbrace⟩ := hts.substitution hnext' hend' hlast hmark
        refine ⟨⟨hname, ?_, hends⟩, hbrace⟩
        rw [← String.length_toList, htext, List.length_cons]
        exact Nat.succ_lt_succ (List.length_pos_of_mem (List.mem_of_getLast? hdollar))
    by_cases hquote : (ts.token s.pos).kind = .templateQuote
    · refine .inl ⟨[], s.pos + 1, Nat.lt_succ_self _, hnext, ?_, templateBody_close hquote⟩
      rw [hfrom, hts.toList_templateQuote hquote]
      exact stretch_stop rfl
    obtain ⟨c, t, htext⟩ := hts.exists_cons hend
    have hplain : ∀ d ∈ (ts.token s.pos).text.toList, d ≠ '\\' ∧ d ≠ '\x60' := by
      refine fun d hd => ⟨?_, ?_⟩
      · rintro rfl
        exact hescape (hts.eq_singleton hend hd (by decide)).2
      · rintro rfl
        exact hquote (hts.eq_singleton hend hd (by decide)).2
    have hbrace : '\x7b' ∉ (ts.token s.pos).text.toList.tail := by
      rw [htext]
      exact fun hmem => hts.notMem_alone hend htext _ hmem (by decide)
    by_cases hsub : (ts.token s.pos).kind = .identifier ∧
        (ts.token s.pos).endsWith '$' = true ∧ (ts.token (s.pos + 1)).kind = .punct .lBrace
    · obtain ⟨hname, hdollar, hmark⟩ := hsub
      obtain ⟨w, hw⟩ := List.getLast?_eq_some_iff.mp (beq_iff_eq.mp hdollar)
      refine .inr (.inl ⟨w, s.pos + 2, n, by omega, Stream.succ_lt hnext (readable hmark),
        Nat.lt_succ_self n, by omega, ?_, templateBody_then hname ⟨hdollar, hmark⟩⟩)
      rw [hfrom, hw, hts.textFrom_mark hnext hmark, List.append_assoc]
      refine stretch_substitution (fun d hd => hplain d (hw ▸ List.mem_append_left _ hd))
        fun hmem => hbrace ?_
      rw [hw]
      cases w with
      | nil => cases hmem
      | cons d w => exact List.mem_append_left _ hmem
    · rw [templateBody_plain hend hescape hquote fun hname h => hsub ⟨hname, h⟩]
      refine (ih hnext (by simp only [Stream.pos_readTo]; omega)).extend (Nat.lt_succ_self _)
        (ts.token s.pos).text.toList ?_
      rw [hfrom]
      exact stretch_endsStretch hplain hbrace fun hdollar hmark =>
        hsub (hts.substitution hnext hend hdollar hmark)

end

section
variable {ts : Stream} {s s' : Progress} {cs : List Char} {r : Rules} {cx : Context} {d n : Nat}

theorem advance_run (hk : ts.kindAt s.pos ≠ .endOfInput) :
    advance ts s = .ok (ts.nextAt s.pos) (ts.readTo s (ts.past s.pos)) :=
  if_neg hk

theorem gather_run (body : Token → Nat → Parser Unit) (hk : ts.kindAt s.pos ≠ .endOfInput) :
    (do
      let first ← nextIndex
      let mark ← advance
      bounded (body mark)
      textFrom first : Parser String) ts s =
    match body (ts.nextAt s.pos) (ts.tokens.size + 1) ts (ts.readTo s (ts.past s.pos)) with
    | .ok _ s' => .ok (ts.textBetween (ts.skip s.pos).1 s'.pos) s'
    | .error e s' => .error e s' := by
  refine (bind_run (advance_run hk)).trans ?_
  cases hbody : body (ts.nextAt s.pos) (ts.tokens.size + 1) ts (ts.readTo s (ts.past s.pos)) with
  | ok _ s' => exact bind_run hbody
  | error e s' => simp only [bounded, Bind.bind, ReaderT.bind, EStateM.bind, hbody]

theorem expectMark_run {mark : Punctuator} :
    expectMark mark ts s = .ok () s' ↔
      ts.kindAt s.pos = .punct mark ∧ s' = ts.readTo s (ts.past s.pos) := by
  have hexpect : expect (.punct mark) ts s =
      (if decide (ts.kindAt s.pos = .punct mark) = true then advance else unexpected) ts s :=
    rfl
  by_cases hk : ts.kindAt s.pos = .punct mark
  · have hadvance : expect (.punct mark) ts s =
        .ok (ts.nextAt s.pos) (ts.readTo s (ts.past s.pos)) := by
      rw [hexpect, if_pos (decide_eq_true hk)]
      exact advance_run (readable hk)
    rw [show expectMark mark ts s = _ from bind_run hadvance]
    exact ⟨fun h => ⟨hk, (EStateM.Result.ok.inj h).2.symm⟩, fun h => h.2 ▸ rfl⟩
  · rw [if_neg (by simpa using hk)] at hexpect
    have hfails : expect (.punct mark) ts s = .error (.unexpected (ts.nextAt s.pos)) s := hexpect
    simp only [expectMark, Bind.bind, ReaderT.bind, EStateM.bind, hfails]
    exact ⟨fun h => (by cases h), fun h => absurd h.1 hk⟩

theorem bind_eq_ok {α β : Type} {x : Parser α} {f : α → Parser β} {b : β} :
    (x >>= f) ts s = .ok b s' ↔ ∃ a s₁, x ts s = .ok a s₁ ∧ f a ts s₁ = .ok b s' := by
  cases hx : x ts s with
  | ok a s₁ =>
    rw [bind_run hx]
    refine ⟨fun h => ⟨a, s₁, rfl, h⟩, ?_⟩
    rintro ⟨_, _, heq, h⟩
    obtain ⟨rfl, rfl⟩ := EStateM.Result.ok.inj heq
    exact h
  | error e s₁ =>
    simp only [Bind.bind, ReaderT.bind, EStateM.bind, hx]
    exact ⟨nofun, fun ⟨_, _, h, _⟩ => nomatch h⟩

/-- A template as its characters say, from behind the mark that opens it or a
substitution: the next stretch of text goes on to a backtick, or to a
substitution that holds one expression and a closing brace. -/
inductive ReadsTemplate (ts : Stream) (r : Rules) (cx : Context) : Progress → Progress → Prop
  | close {s : Progress} {literal : List Char} {j : Nat} : s.pos < j → j < ts.tokens.size →
      stretch endsStretch (ts.textFrom s.pos) = (literal, '\x60' :: ts.textFrom j) →
      ReadsTemplate ts r cx s (ts.readTo s j)
  | substitution {s s₁ s' : Progress} {literal : List Char} {j : Nat} {e : Expr} : s.pos < j →
      j < ts.tokens.size →
      stretch endsStretch (ts.textFrom s.pos) = (literal, '$' :: '\x7b' :: ts.textFrom j) →
      expression r cx.allowIn ts (ts.readTo s j) = .ok e s₁ → ts.kindAt s₁.pos = .punct .rBrace →
      ReadsTemplate ts r cx (ts.readTo s₁ (ts.past s₁.pos)) s' → ReadsTemplate ts r cx s s'

theorem substitution_forward (hts : ts.Holds (Lexeme.lexemes cs)) {e : Expr} {j : Nat}
    (hj : j < ts.tokens.size) (hd : ts.tokens.size ≤ j + d)
    (h : expression (rules d) cx ts (ts.readTo s j) = .ok e s')
    (hk : ts.kindAt s'.pos = .punct .rBrace) :
    j < ts.past s'.pos ∧ ts.past s'.pos < ts.tokens.size := by
  have := hts.ended
  have hs : Situated ts.reading 0 j (ts.readTo s j) := ⟨rfl, hj, fun _ => rfl⟩
  have hrun : Meets ts.reading (expression (rules d) cx) j _ :=
    expression_sound (rules_sound d) hd
  obtain ⟨k, hle, hs', _⟩ := hrun.of_ok hs h
  have hpos : s'.pos = k := hs'.pos
  have hlt := hts.lt_length (i := (ts.skip s'.pos).1) (readable hk)
  have hpast : s'.pos < ts.past s'.pos := Stream.lt_past
  exact ⟨by omega, by rw [hts.size]; exact Nat.succ_lt_succ hlt⟩

def substitution (r : Rules) (cx : Context) : Parser Unit := do
  let _ ← expression r cx.allowIn
  expectMark .rBrace

theorem substitution_run : substitution r cx ts s = .ok () s' ↔
    ∃ e s₁, expression r cx.allowIn ts s = .ok e s₁ ∧ ts.kindAt s₁.pos = .punct .rBrace ∧
      s' = ts.readTo s₁ (ts.past s₁.pos) := by
  unfold substitution
  simp only [bind_eq_ok, expectMark_run]

/-- The parser for the rest of a template follows the characters. -/
theorem templateBody_iff {mark : Token} (hts : ts.Holds (Lexeme.lexemes cs))
    (hs : s.pos < ts.tokens.size) (hn : ts.tokens.size ≤ s.pos + n)
    (hd : ts.tokens.size ≤ s.pos + d + 1) :
    templateBody (substitution (rules d) cx) mark n ts s = .ok () s' ↔
      ReadsTemplate ts (rules d) cx s s' := by
  constructor
  · -- The bound on the number of steps shrinks from stretch to stretch.
    intro h
    induction n using Nat.strongRecOn generalizing s with
    | ind n ih =>
      rcases templateBody_stretch hts hs hn with ⟨literal, j, hlt, hj, hstretch, hok⟩ |
        ⟨literal, j, m, hlt, hj, hm, hm', hstretch, hrun⟩ | ⟨_, _, herror⟩
      · obtain ⟨_, rfl⟩ := EStateM.Result.ok.inj (hok.symm.trans h)
        exact .close hlt hj hstretch
      · rw [hrun, bind_eq_ok] at h
        obtain ⟨_, _, hsub, h⟩ := h
        obtain ⟨e, s₁, he, hk, rfl⟩ := substitution_run.mp hsub
        obtain ⟨hpast, hinside⟩ := substitution_forward hts hj (by omega) he hk
        refine .substitution hlt hj hstretch he hk (ih m hm hinside ?_ ?_ h)
        · simp only [Stream.pos_readTo]
          omega
        · simp only [Stream.pos_readTo]
          omega
      · cases herror.symm.trans h
  · intro h
    induction h generalizing n with
    | close hlt hj hstretch => exact (templateBody_stretch hts hs hn).of_close hts hj hstretch
    | substitution hlt hj hstretch he hk _ ih =>
      obtain ⟨m, hm, hrun⟩ := (templateBody_stretch hts hs hn).of_substitution hts hj hstretch
      obtain ⟨hpast, hinside⟩ := substitution_forward hts hj (by omega) he hk
      rw [hrun, bind_eq_ok]
      refine ⟨(), _, substitution_run.mpr ⟨_, _, he, hk, rfl⟩, ih hinside ?_ ?_⟩
      · simp only [Stream.pos_readTo]
        omega
      · simp only [Stream.pos_readTo]
        omega

theorem ReadsTemplate.bounds (hts : ts.Holds (Lexeme.lexemes cs))
    (h : ReadsTemplate ts (rules d) cx s s') (hd : ts.tokens.size ≤ s.pos + d + 1) :
    s.pos < s'.pos ∧ s'.pos < ts.tokens.size := by
  induction h with
  | close hlt hj => exact ⟨hlt, hj⟩
  | substitution hlt hj _ he hk _ ih =>
    obtain ⟨hpast, _⟩ := substitution_forward hts hj (by omega) he hk
    simp only [Stream.pos_readTo] at ih
    obtain ⟨hlt', hinside⟩ := ih (by omega)
    exact ⟨by omega, hinside⟩

end

section
variable {source : String} {ts : Stream} {s s' : Progress} {raw : String} {cx : Context} {d : Nat}

section
variable (hts : ts.Holds (Lexeme.lexemes source.toList))
include hts

theorem nextAt_bounds (hk : ts.kindAt s.pos ≠ .endOfInput) :
    (ts.skip s.pos).1 < ts.tokens.size ∧ ts.past s.pos < ts.tokens.size := by
  have hlt := hts.lt_length (i := (ts.skip s.pos).1) hk
  have hsize := hts.size
  exact ⟨by omega, by unfold Stream.past; omega⟩

/-- A string is read from its first quote to the next one that is not escaped. -/
theorem stringLiteral_stretch (hk : ts.kindAt s.pos = .stringQuote) :
    ∃ q, (q = '"' ∨ q = '\'') ∧ ts.textFrom (ts.skip s.pos).1 = q :: ts.textFrom (ts.past s.pos) ∧
      ((∃ raw s', stringLiteral ts s = .ok raw s') ↔
        ∃ after, (stretch (endsString q) (ts.textFrom (ts.past s.pos))).2 = q :: after) ∧
      ∀ raw s', stringLiteral ts s = .ok raw s' → ∃ literal,
        stretch (endsString q) (ts.textFrom (ts.past s.pos)) = (literal, q :: ts.textFrom s'.pos) ∧
          raw.toList = q :: (literal ++ [q]) := by
  have hend : ts.kindAt s.pos ≠ .endOfInput := readable hk
  obtain ⟨hfirst, hinside⟩ := nextAt_bounds hts hend
  obtain ⟨q, hq, htext⟩ := hts.toList_stringQuote hk
  have hfrom : ts.textFrom (ts.skip s.pos).1 = q :: ts.textFrom (ts.past s.pos) := by
    rw [Stream.textFrom_succ hfirst, htext]
    rfl
  have hrun : stringLiteral ts s = _ := gather_run stringBody hend
  refine ⟨q, hq, hfrom, ?_⟩
  have hbody : StringRun ts (ts.nextAt s.pos) q (ts.readTo s (ts.past s.pos)) _
      (stringBody (ts.nextAt s.pos) (ts.tokens.size + 1) ts (ts.readTo s (ts.past s.pos))) :=
    stringBody_stretch hts htext hq hinside (by omega)
  rcases hbody with ⟨literal, j, hlt, hj, hstretch, hok⟩ | ⟨hno, _, herror⟩
  · rw [hok] at hrun
    rw [Stream.pos_readTo] at hstretch hlt
    refine ⟨⟨fun _ => ⟨ts.textFrom j, by rw [hstretch]⟩, fun _ => ⟨_, _, hrun⟩⟩,
      fun raw s' hraw => ?_⟩
    obtain ⟨rfl, rfl⟩ := EStateM.Result.ok.inj (hrun.symm.trans hraw)
    have hwhole := stretch_append_rest (endsString q) (ts.textFrom (ts.past s.pos))
    have htextFrom := Stream.textFrom_eq (Nat.le_of_lt (Nat.lt_of_succ_lt hlt)) (Nat.le_of_lt hj)
    rw [hfrom, ← hwhole, hstretch] at htextFrom
    refine ⟨literal, hstretch, List.append_cancel_right (htextFrom.symm.trans ?_)⟩
    simp
  · rw [herror] at hrun
    refine ⟨⟨fun ⟨_, _, h⟩ => (nomatch hrun.symm.trans h), fun ⟨after, h⟩ => absurd h (hno after)⟩,
      fun _ _ h => (nomatch hrun.symm.trans h)⟩

theorem template_iff (hk : ts.kindAt s.pos = .templateQuote) (hd : ts.tokens.size ≤ s.pos + d + 1) :
    template (rules d) cx ts s = .ok raw s' ↔
      ReadsTemplate ts (rules d) cx (ts.readTo s (ts.past s.pos)) s' ∧
        ts.textFrom (ts.skip s.pos).1 = raw.toList ++ ts.textFrom s'.pos := by
  have := hts.ended
  have hend : ts.kindAt s.pos ≠ .endOfInput := readable hk
  obtain ⟨hfirst, hinside⟩ := nextAt_bounds hts hend
  have hpast : s.pos < ts.past s.pos := Stream.lt_past
  have hrun : template (rules d) cx ts s = _ :=
    gather_run (templateBody (substitution (rules d) cx)) hend
  have hbody : ∀ s', templateBody (substitution (rules d) cx) (ts.nextAt s.pos)
      (ts.tokens.size + 1) ts (ts.readTo s (ts.past s.pos)) = .ok () s' ↔ _ :=
    fun s' => templateBody_iff hts hinside (by omega) (by simp only [Stream.pos_readTo]; omega)
  have htext : ∀ {s'}, ReadsTemplate ts (rules d) cx (ts.readTo s (ts.past s.pos)) s' →
      ts.textFrom (ts.skip s.pos).1 =
        (ts.textBetween (ts.skip s.pos).1 s'.pos).toList ++ ts.textFrom s'.pos := by
    intro s' h
    obtain ⟨hlt, hj⟩ := h.bounds hts (by simp only [Stream.pos_readTo]; omega)
    exact Stream.textFrom_eq (Nat.le_of_lt (Nat.lt_of_succ_lt hlt)) (Nat.le_of_lt hj)
  constructor
  · intro h
    cases hok : templateBody (substitution (rules d) cx) (ts.nextAt s.pos)
        (ts.tokens.size + 1) ts (ts.readTo s (ts.past s.pos)) with
    | ok _ s₁ =>
      rw [hok] at hrun
      obtain ⟨rfl, rfl⟩ := EStateM.Result.ok.inj (hrun.symm.trans h)
      exact ⟨(hbody _).mp hok, htext ((hbody _).mp hok)⟩
    | error e s₁ =>
      rw [hok] at hrun
      cases hrun.symm.trans h
  · rintro ⟨hreads, hraw⟩
    rw [(hbody _).mpr hreads] at hrun
    have hsame := List.append_cancel_right ((htext hreads).symm.trans hraw)
    exact hrun.trans (congrArg (EStateM.Result.ok · s') (String.toList_inj.mp hsame))

end

end

/-- Strings and templates are read as their characters say.  A string is read,
from its quote on, exactly if the same quote follows in the line without being
escaped, and its text goes on to that quote.  A template is read stretch by
stretch, each of which goes on to the first backtick or substitution that is not
escaped, and its text goes from one backtick to the other. -/
theorem literals_by_characters {source : String} {ts : Stream}
    (hts : ts.tokens = Token.lex source) {s : Progress} :
    (∀ i ≤ ts.tokens.size, source.toList = (ts.textBetween 0 i).toList ++ ts.textFrom i) ∧
    (ts.kindAt s.pos = .stringQuote → ∃ q, (q = '"' ∨ q = '\'') ∧
      ts.textFrom (ts.skip s.pos).1 = q :: ts.textFrom (ts.past s.pos) ∧
      ((∃ raw s', stringLiteral ts s = .ok raw s') ↔
        ∃ after, (stretch (endsString q) (ts.textFrom (ts.past s.pos))).2 = q :: after) ∧
      ∀ raw s', stringLiteral ts s = .ok raw s' → ∃ literal,
        stretch (endsString q) (ts.textFrom (ts.past s.pos)) = (literal, q :: ts.textFrom s'.pos) ∧
          raw.toList = q :: (literal ++ [q])) ∧
    (ts.kindAt s.pos = .templateQuote → ∀ d cx, ts.tokens.size ≤ s.pos + d + 1 →
      ts.textFrom (ts.skip s.pos).1 = '\x60' :: ts.textFrom (ts.past s.pos) ∧
      ∀ raw s', template (rules d) cx ts s = .ok raw s' ↔
        ReadsTemplate ts (rules d) cx (ts.readTo s (ts.past s.pos)) s' ∧
          ts.textFrom (ts.skip s.pos).1 = raw.toList ++ ts.textFrom s'.pos) := by
  have hholds : ts.Holds (Lexeme.lexemes source.toList) := by
    rw [Stream.Holds, hts]
    exact Token.lex_lexemes source
  refine ⟨fun i hi => ?_, fun hk => stringLiteral_stretch hholds hk, fun hk d cx hd => ⟨?_, ?_⟩⟩
  · rw [← Stream.textFrom_eq (Nat.zero_le i) hi, Stream.textFrom, Stream.textBetween, hts]
    exact congrArg String.toList (Program.textBetween_all source).symm
  · rw [Stream.textFrom_succ (nextAt_bounds hholds (readable hk)).1,
      hholds.toList_templateQuote hk]
    rfl
  · exact fun raw s' => template_iff hholds hk hd

def quotedQuote : Stream :=
  ⟨Token.lex "'a\\''", true⟩

def escapedSubstitution : Stream :=
  ⟨Token.lex "`\\n$\x7ba\x7d`", true⟩

theorem literals_by_characters_escaped :
    (quotedQuote.kindAt 0 = .stringQuote ∧
      ∃ raw s', stringLiteral quotedQuote .start = .ok raw s') ∧
    (escapedSubstitution.kindAt 0 = .templateQuote ∧ escapedSubstitution.tokens.size ≤ 0 + 7 + 1 ∧
      ∀ raw s', template (rules 7) .top escapedSubstitution .start = .ok raw s' →
        escapedSubstitution.textFrom (escapedSubstitution.skip 0).1 =
          raw.toList ++ escapedSubstitution.textFrom s'.pos) := by
  have hstring : quotedQuote.kindAt 0 = .stringQuote := by decide +kernel
  have htemplate : escapedSubstitution.kindAt 0 = .templateQuote := by decide +kernel
  have hsize : escapedSubstitution.tokens.size ≤ 0 + 7 + 1 := by decide +kernel
  refine ⟨⟨hstring, ?_⟩, htemplate, hsize, fun raw s' h => ?_⟩
  · obtain ⟨q, _, hfrom, hiff, _⟩ :=
      (@literals_by_characters _ quotedQuote rfl .start).2.1 hstring
    have hq : quotedQuote.textFrom (quotedQuote.skip 0).1 = "'a\\''".toList := by decide +kernel
    obtain rfl := (List.cons.inj (hfrom.symm.trans hq)).1
    exact hiff.mpr ⟨[], by decide +kernel⟩
  · have hread :=
      (@literals_by_characters _ escapedSubstitution rfl .start).2.2 htemplate 7 .top hsize
    exact ((hread.2 raw s').mp h).2

end Grammar
end ScriptBundler
