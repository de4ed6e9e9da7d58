import ScriptBundler.Proofs.Exactness
import ScriptBundler.Proofs.Relocation
import ScriptBundler.Proofs.Rendering

/-!
# Substitutions in templates

A template is read to its end, with the expressions in its substitutions, and
kept as it is written.  So what stands in a substitution is not compiled: a
module that is named there is not imported.  The main statement compares one
text as a substitution and in parentheses.

The brace that closes a substitution is found by reading an expression.  In
parentheses the same expression is read, so that a brace which closes it too
early would stand where a parenthesis is expected.
-/

namespace ScriptBundler
namespace Grammar

open Grammar.Parser

/-!
# The bracket that closes an expression

Two expressions that start at the same token are closed by the same bracket.
-/

section
variable {ts : Stream} {cx cx' : Context} {e e' : Expr} {i j j' : Nat}

theorem Stream.lt_size [ts.Ended] (hk : ts.kindAt i ≠ .endOfInput) : i < ts.tokens.size := by
  refine Nat.lt_of_not_le fun hle => hk ?_
  unfold Stream.kindAt Stream.nextAt Stream.skip Stream.skipFrom
  rw [Stream.trivium?_of_size_le hle]
  exact Stream.kind_of_size_le hle

theorem Derives.start_lt [ts.Ended] (h : Spells ts.reading (.expr cx e) i j) :
    i < ts.tokens.size := by
  refine Stream.lt_size fun hk => ?_
  have hopens := h.opens
  rw [Phrase.opens, show ts.reading.kindAt i = _ from hk] at hopens
  cases hopens

section
variable (hmemory : ts.remembers = false)
include hmemory

section
variable (h : Spells ts.reading (.expr cx e) i j)
include h

theorem Derives.close_unique [ts.Ended] (h' : Spells ts.placed (.expr cx e') i j')
    (hk : ts.kindAt j = .punct .rBrace) (hk' : ts.kindAt j' = .punct .rParen) : False := by
  have hr := (rules_exact hmemory ts.tokens.size).2
  have hfinds : Gives ts.reading (expression (rules ts.tokens.size) cx) i (Finds Expr.bare e j) :=
    expression_finds hr h (.of_endsYield (by rw [hk]; rfl) (by rw [hk]; exact nofun)) .refl
      (Nat.le_add_left _ _)
  have hfinds' : Gives ts.placed (expression (rules ts.tokens.size) cx) i
      (Finds Expr.bare e' j') :=
    expression_finds hr h' (.of_endsYield (by rw [hk']; rfl) (by rw [hk']; exact nofun)) .refl
      (Nat.le_add_left _ _)
  obtain ⟨_, _, ⟨rfl, _⟩, rfl, _⟩ := hfinds.both hfinds' h.start_lt
  cases hk.symm.trans hk'

theorem Derives.param_end [ts.Ended] {x : Param} (hlevel : Level.assignment ≤ e.level)
    (hk : endsYield (ts.kindAt j) = true) (hcx : cx.noIn = false)
    (h' : Spells ts.placed (.item cx' .param x) i j') (hk' : endsYield (ts.kindAt j') = true)
    (hcx' : cx'.noIn = false) : j' = j := by
  have hr := (rules_exact hmemory ts.tokens.size).2
  have hfinds : Gives ts.placed (param (rules ts.tokens.size) cx') i (Finds Param.bare x j') :=
    param_finds hr h' hk' (.inl (Context.allowIn_of_noIn hcx')) (Nat.le_add_left _ _)
  have hpasses : Meets ts.reading (param (rules ts.tokens.size) cx') i fun _ =>
      PassesTo ts.reading j :=
    param_passes hr (.plainArg h hlevel) hk hcx (Nat.le_add_left _ _)
  obtain ⟨_, _, ⟨rfl, _⟩, hpass⟩ := hfinds.both hpasses h.start_lt
  rcases hpass with hsame | hno
  · exact hsame
  · cases hk'.symm.trans hno

/-- Where an expression is followed by a comma or a brace, parameters go on
behind it, with a comma. -/
theorem Derives.param_of_arg [ts.Ended] {params : List Param} (hlevel : Level.assignment ≤ e.level)
    (hk : ts.kindAt j = .punct .comma ∨ ts.kindAt j = .punct .rBrace) (hcx : cx.noIn = false)
    (h' : Spells ts.placed (.items cx' .param params) i j') (hcx' : cx'.noIn = false) :
    ∃ rest m, ts.placed.Reads (.punct .comma) j m ∧
      Spells ts.placed (.items cx' .param rest) m j' := by
  have hends : endsYield (ts.kindAt j) = true := by
    rcases hk with hk | hk <;> rw [hk] <;> rfl
  have hend : ∀ {x m mark}, Spells ts.placed (.item cx' .param x) i m →
      ts.kindAt m = .punct mark → mark = .comma ∨ mark = .rParen → m = j := by
    intro x m mark hx hm hmark
    refine h.param_end hmemory hlevel hends hcx hx ?_ hcx'
    rcases hmark with rfl | rfl <;> rw [hm] <;> rfl
  cases h' with
  | noItems hclose =>
    have harg : Spells ts.reading (.item cx .arg e) i j := .plainArg h hlevel
    exact absurd hclose.1 (startsItem_ne harg.opens).2
  | hole hx => cases hx
  | moreItems hx hcomma hrest =>
    obtain rfl := hend hx hcomma.1 (.inl rfl)
    exact ⟨_, _, hcomma, hrest⟩
  | lastItem hx hclose =>
    obtain rfl := hend hx hclose.1 (.inr rfl)
    rcases hk with hk | hk <;> cases hk.symm.trans hclose.1

end

theorem Derives.not_params_of_others {es : List Expr} [ts.Ended] (hcx : cx.noIn = false)
    (hcx' : cx'.noIn = false) (hk : ts.kindAt j = .punct .rBrace) :
    ∀ {i m : Nat} {params : List Param}, ts.placed.Reads (.punct .comma) m i →
      Spells ts.reading (.others cx es) m j →
      ¬ Spells ts.placed (.items cx' .param params) i j' := by
  induction es with
  | nil => exact fun _ hes => nomatch hes
  | cons e es ih =>
    intro i m params hcomma hes hparams
    cases hes with
    | other hread he hlevel =>
      obtain rfl := hread.2.1.symm.trans hcomma.2.1
      obtain ⟨_, _, hnext, _⟩ := he.param_of_arg hmemory hlevel (.inr hk) hcx hparams hcx'
      cases hk.symm.trans hnext.1
    | moreOthers hread he hlevel hrest =>
      obtain rfl := hread.2.1.symm.trans hcomma.2.1
      obtain ⟨_, _, hnext, hparams'⟩ := he.param_of_arg hmemory hlevel
        (.inl hrest.others_kind) hcx hparams hcx'
      exact ih hnext hrest hparams'

/-- An expression that is closed by a brace starts no parameters. -/
theorem Derives.not_params [ts.Ended] {params : List Param} (h : Spells ts.reading (.expr cx e) i j)
    (hk : ts.kindAt j = .punct .rBrace) (hcx : cx.noIn = false) (hcx' : cx'.noIn = false) :
    ¬ Spells ts.placed (.items cx' .param params) i j' := by
  intro hparams
  by_cases hsequence : ∃ span items, e = .sequence span items
  · obtain ⟨span, items, rfl⟩ := hsequence
    cases h with
    | sequence hfirst hlevel hrest =>
      obtain ⟨_, _, hnext, hparams'⟩ := hfirst.param_of_arg hmemory hlevel
        (.inl hrest.others_kind) hcx hparams hcx'
      exact hrest.not_params_of_others hmemory hcx hcx' hk hnext hparams'
  · have hlevel := assignment_le_level fun span items he => hsequence ⟨span, items, he⟩
    obtain ⟨_, _, hnext, _⟩ := h.param_of_arg hmemory hlevel (.inr hk) hcx hparams hcx'
    cases hk.symm.trans hnext.1

end

end

section
variable {rd : Reading} {cx : Context} {e : Expr} {i j : Nat}

theorem Derives.not_arrowHead {isAsync : Bool} {params : List Param}
    (hname : rd.kindAt i = .identifier) (heq : rd.kindAt (rd.past i) = .punct .eq) :
    ¬ Spells rd (.arrowHead isAsync params) i j := by
  intro h
  cases h with
  | arrowName hasync hword _ harrow =>
    cases hasync with
    | yes hread => cases hname.symm.trans hread.1
    | no =>
      rw [hword.past_eq, harrow.1] at heq
      cases heq
  | arrowParams hasync hopen =>
    cases hasync with
    | yes hread => cases hname.symm.trans hread.1
    | no => cases hname.symm.trans hopen.1

theorem Derives.value_of_assignment [rd.Ended] (h : Spells rd (.expr cx e) i j)
    (hlevel : Level.assignment ≤ e.level)
    (hnext : rd.kindAt j = .punct .comma ∨ Stops rd cx.noIn j e)
    (hname : rd.kindAt i = .identifier) (heq : rd.kindAt (rd.past i) = .punct .eq) :
    ∃ value m, Spells rd (.expr cx value) (rd.past (rd.past i)) m ∧
      Level.assignment ≤ value.level := by
  rcases h.lead_operand hlevel (by rw [hname]; rfl) with ⟨harrow, _⟩ | ⟨hmark, _⟩ |
    ⟨x, m, hbase, hext⟩
  · cases h with
    | arrow hhead | arrowBlock hhead => exact absurd hhead (Derives.not_arrowHead hname heq)
    | _ => cases harrow
  · rcases hmark with hmark | hmark <;> cases hname.symm.trans hmark
  · cases hbase with
    | word _ htake =>
      obtain rfl : rd.past i = m := htake.1
      rcases hext.assigned heq with ⟨rfl, rfl⟩ | ⟨_, _, _, value, hread, hvalue, hvalueLevel⟩
      · rcases hnext with hcomma | hstops
        · cases heq.symm.trans hcomma
        · have hnone := hstops.2.2.2
          rw [heq] at hnone
          cases hnone
      · exact ⟨value, j, hread.past_eq ▸ hvalue, hvalueLevel⟩
    | asyncFunction hasync => cases hname.symm.trans hasync
    | array hopen | object hopen | paren hopen => cases hname.symm.trans hopen.1
    | other hother =>
      rw [hname] at hother
      cases hother

theorem Derives.expr_of_stmt {st : Stmt} (h : Spells rd (.stmt cx st) i j)
    (hname : rd.kindAt i = .identifier) (heq : rd.kindAt (rd.past i) = .punct .eq) :
    ∃ e m, Spells rd (.expr cx e) i m ∧
      SequenceStops rd (Halts rd) cx.noIn m e := by
  rcases h.stmt_cases with ⟨e, m, he, hstops, -⟩ | ⟨-, hcolon⟩ | hstart
  · exact ⟨e, m, he, hstops⟩
  · cases heq.symm.trans hcolon
  · rw [hname] at hstart
    cases hstart

theorem Derives.value_of_stmts [rd.Ended] {body : List Stmt} (h : Spells rd (.stmts cx [] body) i j)
    (hname : rd.kindAt i = .identifier) (heq : rd.kindAt (rd.past i) = .punct .eq) :
    ∃ value m, Spells rd (.expr cx value) (rd.past (rd.past i)) m ∧
      Level.assignment ≤ value.level := by
  cases h with
  | noStmts hend =>
    rw [hname] at hend
    rcases hend with hend | hend <;> cases hend
  | moreStmts _ hstmt =>
    obtain ⟨e, m, he, hstops⟩ := hstmt.expr_of_stmt hname heq
    by_cases hsequence : ∃ span items, e = .sequence span items
    · obtain ⟨span, items, rfl⟩ := hsequence
      cases he with
      | sequence hfirst hlevel hothers =>
        exact hfirst.value_of_assignment hlevel (.inl hothers.others_kind) hname heq
    · have hno := fun span items he => hsequence ⟨span, items, he⟩
      exact he.value_of_assignment (assignment_le_level hno)
        (.inr (hstops.of_not_sequence hno).2.1) hname heq

end

/-!
# A range of tokens in two streams

The same lexemes in the middle of two streams are copies of each other.
-/

namespace Stream

def startsTrivia : Token.Kind → Bool
  | .space | .newline | .punct .slash => true
  | _ => false

/-- A token with nothing to skip in front of it. -/
structure StandsAt (ts : Stream) (l : Lexeme) (i : Nat) : Prop where
  lexeme : (ts.token i).lexeme = l
  skip : ts.skip i = (i, false)

namespace StandsAt

variable {ts : Stream} {l : Lexeme} {i : Nat}

section
variable (h : ts.StandsAt l i)
include h

theorem kind : (ts.token i).kind = l.kind :=
  congrArg Lexeme.kind h.lexeme

theorem text : (ts.token i).text = l.text :=
  congrArg Lexeme.text h.lexeme

theorem kindAt : ts.kindAt i = l.kind := by
  rw [Stream.kindAt, nextAt, h.skip]
  exact h.kind

theorem past : ts.past i = i + 1 := by
  rw [Stream.past, h.skip]

theorem textAt : ts.textAt i = l.text := by
  rw [Stream.textAt, nextAt, h.skip]
  exact h.text

theorem reads : ts.placed.Reads l.kind i (i + 1) :=
  ⟨h.kindAt, h.past, trivial⟩

end

end StandsAt

section
variable {ts ts' : Stream} {ls before before' after after' : List Lexeme} {l : Lexeme} {i q : Nat}

theorem Holds.standsAt (h : ts.Holds ls) (hl : ls[i]? = some l)
    (hk : startsTrivia l.kind = false) : ts.StandsAt l i := by
  have hi : i < ls.length := (List.getElem?_eq_some_iff.mp hl).1
  have hlexeme : (ts.token i).lexeme = l := Option.some.inj ((h.getElem? hi).symm.trans hl)
  have hkind : (ts.token i).kind = l.kind := congrArg Lexeme.kind hlexeme
  refine ⟨hlexeme, skip_of_blanks ⟨Nat.le_refl i, fun n hn hn' => absurd hn (by omega)⟩
    (by rw [h.size]; omega) ?_⟩
  unfold trivium?
  rw [hkind]
  split <;> rename_i hkind' <;> first | rfl | (rw [hkind'] at hk; cases hk)

theorem Holds.lexeme_middle (h : ts.Holds (before ++ (ls ++ after))) (hi : i < ls.length) :
    some (ts.token (before.length + i)).lexeme = ls[i]? := by
  rw [← h.getElem? (by simp only [List.length_append]; omega),
    List.getElem?_append_right (Nat.le_add_right _ _), Nat.add_sub_cancel_left,
    List.getElem?_append_left hi]

theorem getElem?_behind (before ls after : List Lexeme) (i : Nat) :
    (before ++ (ls ++ after))[before.length + ls.length + i]? = after[i]? := by
  rw [Nat.add_assoc, List.getElem?_append_right (Nat.le_add_right _ _), Nat.add_sub_cancel_left,
    List.getElem?_append_right (Nat.le_add_right _ _), Nat.add_sub_cancel_left]

theorem Holds.copies (h : ts.Holds (before ++ (ls ++ after)))
    (h' : ts'.Holds (before' ++ (ls ++ after'))) {cs : List Char}
    (hcs : ts.Holds (Lexeme.lexemes cs)) (hq : before.length ≤ q)
    (hq' : q < before.length + ls.length) (hk : (ts.token q).kind = .punct .rBrace) :
    Copies ts ts' before.length q before'.length := by
  have hchars : (ts.token q).text.toList = ['\x7d'] :=
    Lexeme.toList_eq_chars (l := (ts.token q).lexeme) (hcs.lexemes_token (hk.trans_ne nofun)) hk
  have htext : (ts.token q).text = "\x7d" := by
    rw [← String.toList_inj, hchars]
    rfl
  have hbrace : (ts.token q).lexeme = ⟨.punct .rBrace, "\x7d"⟩ := congrArg₂ Lexeme.mk hk htext
  have hsame : ∀ n, before.length ≤ n → n ≤ q →
      (ts'.token (shift before.length before'.length n)).lexeme = (ts.token n).lexeme := by
    intro n hn hn'
    have hleft := h.lexeme_middle (i := n - before.length) (by omega)
    have hright := h'.lexeme_middle (i := n - before.length) (by omega)
    rw [Nat.add_sub_cancel' hn] at hleft
    exact Option.some.inj (hright.trans hleft.symm)
  have hsolid : ∀ {t : Token}, t.lexeme = ⟨.punct .rBrace, "\x7d"⟩ → t.Solid := by
    intro t ht
    have hkind : t.kind = .punct .rBrace := congrArg Lexeme.kind ht
    have htext : t.text = "\x7d" := congrArg Lexeme.text ht
    refine ⟨hkind ▸ nofun, hkind ▸ nofun, hkind ▸ nofun, hkind ▸ nofun, hkind ▸ nofun, ?_⟩
    rw [Token.startsWith, htext]
    rfl
  have hsize := h.size
  have hsize' := h'.size
  simp only [List.length_append] at hsize hsize'
  exact ⟨h.ended, hq, by omega, by unfold shift; omega, fun n hn hn' => hsame n hn (by omega),
    .inl (hsame q hq (Nat.le_refl q)), hsolid hbrace,
    hsolid ((hsame q hq (Nat.le_refl q)).trans hbrace)⟩

end
end Stream

section
variable {ts : Stream} {cx : Context} {e : Expr} {i j : Nat}

theorem Derives.inside_paren [ts.Ended] (hopen : ts.StandsAt ⟨.punct .lParen, "("⟩ i)
    (h : Spells ts.placed (.expr cx e) i j) (hlevel : Level.assignment ≤ e.level) :
    (∃ inner m, Spells ts.placed (.expr cx.allowIn inner) (i + 1) m ∧
      ts.kindAt m = .punct .rParen) ∨
    ∃ isAsync params m,
      Spells ts.placed (.items (Context.function isAsync false) .param params) (i + 1) m := by
  have hk : ts.placed.kindAt i = .punct .lParen := hopen.kindAt
  have hhead : ∀ {isAsync params m}, Spells ts.placed (.arrowHead isAsync params) i m →
      ∃ isAsync params m,
        Spells ts.placed (.items (Context.function isAsync false) .param params) (i + 1) m := by
    intro isAsync params m hhead
    cases hhead with
    | arrowName hasync hword =>
      cases hasync with
      | yes hread => cases hk.symm.trans hread.1
      | no => cases hk.symm.trans hword.1.1
    | arrowParams hasync hread hparams =>
      cases hasync with
      | yes hread => cases hk.symm.trans hread.1
      | no =>
        obtain rfl := hread.past_eq.symm.trans hopen.past
        exact ⟨_, _, _, hparams⟩
  rcases h.lead_operand hlevel (by rw [hk]; rfl) with ⟨harrow, _⟩ | ⟨hmark, _⟩ |
    ⟨x, m, hbase, _⟩
  · cases h with
    | arrow h | arrowBlock h => exact .inr (hhead h)
    | _ => cases harrow
  · rcases hmark with hmark | hmark <;> cases hk.symm.trans hmark
  · cases hbase with
    | paren hread hinner hclose =>
      obtain rfl := hread.past_eq.symm.trans hopen.past
      exact .inl ⟨_, _, hinner, hclose.1⟩
    | word hword =>
      rw [hk] at hword
      cases hword
    | asyncFunction hasync => cases hk.symm.trans hasync
    | array hread | object hread => cases hk.symm.trans hread.1
    | other _ hparen => exact absurd hk hparen

theorem Derives.template_of_quote [ts.Ended] (hk : ts.kindAt i = .templateQuote)
    (h : Spells ts.placed (.expr cx e) i j) (hlevel : Level.assignment ≤ e.level) :
    ∃ raw m, Spells ts.placed (.template cx raw) i m := by
  have hk : ts.placed.kindAt i = .templateQuote := hk
  have hno : ∀ {isAsync params m}, ¬ Spells ts.placed (.arrowHead isAsync params) i m := by
    intro isAsync params m hhead
    have hopens := hhead.opens
    rw [Phrase.opens, hk] at hopens
    cases hopens
  rcases h.lead with hother | ⟨x, m, hbase, hx, _⟩
  · cases hother with
    | signed hsign =>
      rw [hk] at hsign
      rcases hsign with hsign | hsign | hsign <;> cases hsign
    | yield hyield => cases hk.symm.trans hyield
    | arrow => cases h with
      | arrow hhead => exact absurd hhead hno
    | arrowBlock => cases h with
      | arrowBlock hhead => exact absurd hhead hno
    | assignPattern hmark =>
      rcases hmark with hmark | hmark <;> cases hk.symm.trans hmark
    | sequence => exact absurd hlevel (by simp only [Expr.level]; decide)
  · cases hx with
    | quasi htemplate => exact ⟨_, _, htemplate⟩
    | null hread | trueWord hread | falseWord hread | this hread | super hread | number hread
    | asyncIdent hread | array hread | object hread | paren hread | new hread | newBare hread =>
      cases hk.symm.trans hread.1
    | ident hread => cases hk.symm.trans hread.1.1
    | string hstring => cases hk.symm.trans hstring.1
    | regex hregex =>
      rcases hregex.kindAt_eq with hslash | hslash <;> cases hk.symm.trans hslash
    | function hf =>
      rcases hf.func_kind with hword | hword <;> cases hk.symm.trans hword
    | «class» hclass => cases hk.symm.trans (of_decide_eq_true hclass.opens)
    | binary =>
      rw [isBase_binary] at hbase
      cases hbase
    | _ => cases hbase

theorem Derives.inside_substitution {raw : String}
    (hquote : ts.StandsAt ⟨.templateQuote, "`"⟩ i)
    (hdollar : ts.StandsAt ⟨.identifier, "$"⟩ (i + 1))
    (hbrace : ts.StandsAt ⟨.punct .lBrace, "\x7b"⟩ (i + 2))
    (h : Spells ts.placed (.template cx raw) i j) :
    ∃ inner m m', Spells ts.placed (.expr cx.allowIn inner) (i + 3) m ∧
      ts.placed.Reads (.punct .rBrace) m m' := by
  have hends : (ts.placed.token (i + 1)).endsWith '$' = true := by
    rw [Token.endsWith, show (ts.placed.token (i + 1)).text = _ from hdollar.text]
    rfl
  have hk : (ts.placed.token (i + 1)).kind = .identifier := hdollar.kind
  cases h with
  | template _ hrest =>
    rw [show ts.placed.past i = _ from hquote.past] at hrest
    cases hrest with
    | templateClose hk' | templateEscape hk' | templateEscapeThen hk' =>
      cases hk.symm.trans hk'
    | templateThen _ _ _ hsub =>
      cases hsub with
      | substitution hinner hclose => exact ⟨_, _, _, hinner, hclose⟩
    | templatePlain _ _ _ hno => exact absurd ⟨hk, hends, hbrace.kind⟩ hno

end

/-!
# One text in two places

A text stands in parentheses in one source and in a substitution in the other, and
is read up to its last lexeme in both.
-/

def parenOpening : List Lexeme :=
  [⟨.identifier, "x"⟩, ⟨.punct .eq, "="⟩, ⟨.punct .lParen, "("⟩]

def templateOpening : List Lexeme :=
  [⟨.identifier, "x"⟩, ⟨.punct .eq, "="⟩, ⟨.templateQuote, "`"⟩, ⟨.identifier, "$"⟩,
    ⟨.punct .lBrace, "\x7b"⟩]

def templateClosing : List Lexeme :=
  [⟨.punct .rBrace, "\x7d"⟩, ⟨.templateQuote, "`"⟩, ⟨.punct .semicolon, ";"⟩]

section
variable {ts ts' : Stream} {ls after : List Lexeme} {cs : List Char} {body : List Stmt}
  {inner : Expr} {j m q : Nat}

theorem Stream.Holds.standsAt_opening {opening : List Lexeme} {l : Lexeme} {i : Nat}
    (h : ts.Holds (opening ++ (ls ++ after))) (hl : opening[i]? = some l)
    (hk : startsTrivia l.kind = false) : ts.StandsAt l i := by
  refine h.standsAt ?_ hk
  rw [List.getElem?_append_left (List.getElem?_eq_some_iff.mp hl).1]
  exact hl

theorem Derives.value_at_two [ts.Ended] (hname : ts.StandsAt ⟨.identifier, "x"⟩ 0)
    (heq : ts.StandsAt ⟨.punct .eq, "="⟩ 1) (h : Spells ts.placed (.stmts .top [] body) 0 j) :
    ∃ value m, Spells ts.placed (.expr .top value) 2 m ∧ Level.assignment ≤ value.level := by
  have hpast : ts.placed.past 0 = 1 := hname.past
  have hvalue := h.value_of_stmts hname.kindAt (by rw [hpast]; exact heq.kindAt)
  rwa [hpast, show ts.placed.past 1 = 2 from heq.past] at hvalue

/-- A brace among the tokens of the text does not close the expression: it would
close the one in parentheses, or the parameters there. -/
theorem Derives.le_close (hmemory : ts.remembers = false)
    (hts : ts.Holds (parenOpening ++ (ls ++ after)))
    (hts' : ts'.Holds (templateOpening ++ (ls ++ templateClosing)))
    (hcs : ts'.Holds (Lexeme.lexemes cs)) (h : Spells ts.placed (.stmts .top [] body) 0 j)
    (hinner : Spells ts'.placed (.expr .top inner) 5 m)
    (hk : ts'.kindAt m = .punct .rBrace) : 5 + ls.length ≤ (ts'.skip m).1 := by
  have := hts.ended
  have := hts'.ended
  have hle : 5 ≤ m := hinner.le
  have hle' : m ≤ (ts'.skip m).1 := Nat.le_of_lt_succ Stream.lt_past
  refine Nat.le_of_not_lt fun hlt => ?_
  have hcopies : Stream.Copies ts' ts 5 (ts'.skip m).1 3 :=
    hts'.copies hts hcs (Nat.le_trans hle hle') hlt hk
  have hmoved : Spells ts.reading (.expr .top inner) 3 (Stream.shift 5 3 m) :=
    hinner.move hcopies (Nat.le_refl 5) (Nat.le_refl (ts'.past m))
  have hbrace : ts.kindAt (Stream.shift 5 3 m) = .punct .rBrace :=
    (hcopies.kindAt_edge hle (Nat.le_refl (ts'.past m))).elim (·.trans hk) id
  obtain ⟨value, _, hvalue, hlevel⟩ := h.value_at_two
    (hts.standsAt_opening rfl rfl) (hts.standsAt_opening rfl rfl)
  rcases hvalue.inside_paren (hts.standsAt_opening rfl rfl) hlevel with
    ⟨_, _, hinner', hparen⟩ | ⟨_, _, _, hparams⟩
  · exact hmoved.close_unique hmemory hinner' hbrace hparen
  · exact hmoved.not_params hmemory hbrace rfl rfl hparams

theorem Stream.Holds.close_le (hts : ts.Holds (templateOpening ++ (ls ++ templateClosing)))
    (hk : (ts.token q).kind = .punct .rBrace) : q ≤ 5 + ls.length := by
  refine Nat.le_of_not_lt fun hlt => ?_
  obtain ⟨k, rfl⟩ : ∃ k, q = 5 + ls.length + (k + 1) := ⟨q - (5 + ls.length) - 1, by omega⟩
  have htoken := hts.getElem? (hts.lt_length (hk.trans_ne nofun))
  rw [show 5 = templateOpening.length from rfl, getElem?_behind] at htoken
  match k, htoken with
  | 0, htoken | 1, htoken =>
    have hkind := congrArg Lexeme.kind (Option.some.inj htoken)
    cases hkind.trans hk

/-- Where both texts are read, the brace behind the text closes the
substitution. -/
theorem Derives.substitution_closes {body' : List Stmt} {j' : Nat} (hmemory : ts.remembers = false)
    (hts : ts.Holds (parenOpening ++ (ls ++ after)))
    (hts' : ts'.Holds (templateOpening ++ (ls ++ templateClosing)))
    (hcs : ts'.Holds (Lexeme.lexemes cs)) (h : Spells ts.placed (.stmts .top [] body) 0 j)
    (h' : Spells ts'.placed (.stmts .top [] body') 0 j') :
    Spells ts'.placed (.substitution .top) 5 (6 + ls.length) := by
  have := hts'.ended
  obtain ⟨value, _, hvalue, hlevel⟩ := h'.value_at_two
    (hts'.standsAt_opening rfl rfl) (hts'.standsAt_opening rfl rfl)
  have hquote : ts'.StandsAt ⟨.templateQuote, "`"⟩ 2 := hts'.standsAt_opening rfl rfl
  obtain ⟨raw, _, htemplate⟩ := hvalue.template_of_quote hquote.kindAt hlevel
  obtain ⟨inner, m, _, hinner, hclose⟩ := htemplate.inside_substitution hquote
    (hts'.standsAt_opening rfl rfl) (hts'.standsAt_opening rfl rfl)
  have hk : ts'.kindAt m = .punct .rBrace := hclose.1
  have hle := h.le_close hmemory hts hts' hcs hinner hk
  have hge := hts'.close_le hk
  have hpast : ts'.past m = 6 + ls.length := by
    unfold Stream.past
    omega
  exact .substitution hinner ⟨hk, hpast, trivial⟩

def templateProgram (raw : String) : Program :=
  [.expr .nowhere (.assign .nowhere .assign (.ident .nowhere "x") (.template .nowhere raw))]

theorem Derives.templateProgram (hts : ts.Holds (templateOpening ++ (ls ++ templateClosing)))
    (h : Spells ts.placed (.substitution .top) 5 (6 + ls.length)) :
    ∃ p : Program, Stmt.listBare p = templateProgram (ts.textBetween 2 (7 + ls.length)) ∧
      Spells ts.placed (.stmts .top [] p) 0 (8 + ls.length) ∧
        ts.kindAt (8 + ls.length) = .endOfInput := by
  have hname : ts.StandsAt ⟨.identifier, "x"⟩ 0 := hts.standsAt_opening rfl rfl
  have heq : ts.StandsAt ⟨.punct .eq, "="⟩ 1 := hts.standsAt_opening rfl rfl
  have hquote : ts.StandsAt ⟨.templateQuote, "`"⟩ 2 := hts.standsAt_opening rfl rfl
  have hdollar : ts.StandsAt ⟨.identifier, "$"⟩ 3 := hts.standsAt_opening rfl rfl
  have hbrace : ts.StandsAt ⟨.punct .lBrace, "\x7b"⟩ 4 := hts.standsAt_opening rfl rfl
  have hlast : ts.StandsAt ⟨.templateQuote, "`"⟩ (6 + ls.length) := by
    refine hts.standsAt ?_ rfl
    rw [show 6 + ls.length = templateOpening.length + ls.length + 1 by
      change _ = 5 + _ + 1; omega, Stream.getElem?_behind]
    rfl
  have hmark : ts.StandsAt ⟨.punct .semicolon, ";"⟩ (7 + ls.length) := by
    refine hts.standsAt ?_ rfl
    rw [show 7 + ls.length = templateOpening.length + ls.length + 2 by
      change _ = 5 + _ + 2; omega, Stream.getElem?_behind]
    rfl
  have hlength : (templateOpening ++ (ls ++ templateClosing)).length = 8 + ls.length := by
    simp only [List.length_append]
    change 5 + (ls.length + 3) = _
    omega
  have hend : ts.kindAt (8 + ls.length) = .endOfInput := by
    rw [← hlength]
    exact hts.kindAt_end ⟨Nat.le_refl _, fun n hn hn' => absurd hn' (Nat.not_lt.mpr hn)⟩
  have hrest : Spells ts.placed (.templateRest .top) 3 (7 + ls.length) := by
    refine .templateThen hdollar.kind ?_ hbrace.kind h ?_
    · rw [Token.endsWith, show (ts.placed.token 3).text = _ from hdollar.text]
      rfl
    · rw [show 7 + ls.length = 6 + ls.length + 1 by omega]
      exact .templateClose hlast.kind
  have htemplate : Spells ts.placed (.template .top (ts.textBetween 2 (7 + ls.length))) 2
      (7 + ls.length) := by
    refine .template hquote.kindAt ?_ ?_ trivial
    · rw [show ts.placed.past 2 = _ from hquote.past]
      exact hrest
    · rw [show ts.placed.skip 2 = _ from hquote.skip]
  have hreads : ts.placed.Reads (.punct .semicolon) (7 + ls.length) (8 + ls.length) := by
    rw [show 8 + ls.length = 7 + ls.length + 1 by omega]
    exact hmark.reads
  have hstart : ts.placed.kindAt 0 = .identifier := hname.kindAt
  have hspans := ts.reading.spans_between
  have htarget : Spells ts.placed (.expr .top (.ident _ "x")) 0 1 :=
    .ident ⟨hname.reads, hname.textAt⟩ (hspans 0 1)
  have hvalue : Spells ts.placed (.expr .top (.template _ _)) 2 (7 + ls.length) :=
    .quasi htemplate (hspans 2 _)
  have he : Spells ts.placed (.expr .top (.assign _ .assign _ _)) 0 (7 + ls.length) :=
    .assign htarget rfl heq.reads rfl hvalue (by simp only [Expr.level]; decide) (hspans 0 _)
  refine ⟨_, rfl, .moreStmts ?_ (.exprStmt ?_ he (SequenceEnds.of_reads hreads (by simp)).stops
    (.mark hreads) (hspans 0 _)) (.noStmts (.inl hend)), hend⟩
  · rw [hstart]
    rintro (hno | hno) <;> cases hno
  · rw [hstart, show ts.placed.past 0 = _ from hname.past,
      show ts.placed.kindAt 1 = _ from heq.kindAt]
    rfl

theorem Stream.Holds.template_text (hts : ts.Holds (templateOpening ++ (ls ++ templateClosing))) :
    (ts.textBetween 2 (7 + ls.length)).toList =
      "`$\x7b".toList ++ Lexeme.textOf ls ++ "\x7d`".toList := by
  have hsplit : templateOpening ++ (ls ++ templateClosing) =
      templateOpening.take 2 ++ ((templateOpening.drop 2 ++ ls ++ templateClosing.take 2) ++
        templateClosing.drop 2) := by
    simp [templateOpening, templateClosing]
  have hlength : (templateOpening.drop 2 ++ ls ++ templateClosing.take 2).length =
      7 + ls.length - 2 := by
    simp only [List.length_append]
    change 3 + ls.length + 2 = _
    omega
  have hbetween : ts.between 2 (7 + ls.length) =
      templateOpening.drop 2 ++ ls ++ templateClosing.take 2 := by
    rw [hts.between_eq (by simp [templateOpening, templateClosing]; omega), hsplit,
      List.drop_left' (show (templateOpening.take 2).length = 2 from rfl), List.take_left' hlength]
  rw [toList_textBetween (by omega), hbetween, Lexeme.textOf_append, Lexeme.textOf_append]
  simp [templateOpening, templateClosing]

end

end Grammar

namespace Program

open Grammar

def parenthesized (e : String) : String :=
  "x=(" ++ e ++ ");"

def substituted (e : String) : String :=
  "x=`$\x7b" ++ e ++ "\x7d`;"

theorem lexemes_parenthesized (e : String) : Lexeme.lexemes (parenthesized e).toList =
    parenOpening ++
      (Lexeme.lexemes e.toList ++ [⟨.punct .rParen, ")"⟩, ⟨.punct .semicolon, ";"⟩]) := by
  have hchars : (parenthesized e).toList = ['x', '='] ++ '(' :: (e.toList ++ ')' :: [';']) := by
    simp [parenthesized]
  have hopen : Lexeme.lexemes ['x', '='] ++ Lexeme.lexemes ['('] = parenOpening := by
    decide +kernel
  have hclose : Lexeme.lexemes [')'] ++ Lexeme.lexemes [';'] =
      [⟨.punct .rParen, ")"⟩, ⟨.punct .semicolon, ";"⟩] := by decide +kernel
  rw [hchars, Lexeme.lexemes_single _ _ (by decide), Lexeme.lexemes_single _ _ (by decide), hopen,
    List.append_assoc, hclose]

theorem lexemes_substituted (e : String) : Lexeme.lexemes (substituted e).toList =
    templateOpening ++ (Lexeme.lexemes e.toList ++ templateClosing) := by
  have hchars : (substituted e).toList =
      ['x', '=', '\x60', '$'] ++ '\x7b' :: (e.toList ++ '\x7d' :: ['\x60', ';']) := by
    simp [substituted]
  have hopen : Lexeme.lexemes ['x', '=', '\x60', '$'] ++ Lexeme.lexemes ['\x7b'] =
      templateOpening := by decide +kernel
  have hclose : Lexeme.lexemes ['\x7d'] ++ Lexeme.lexemes ['\x60', ';'] = templateClosing := by
    decide +kernel
  rw [hchars, Lexeme.lexemes_single _ _ (by decide), Lexeme.lexemes_single _ _ (by decide), hopen,
    List.append_assoc, hclose]

/-- Where a text is read in parentheses and in a substitution, the template is
kept as it is written. -/
theorem ofSource_substituted {e : String} {p p' : Program}
    (h : ofSource (parenthesized e) = .ok p) (h' : ofSource (substituted e) = .ok p') :
    Stmt.listBare p' = templateProgram ("`$\x7b" ++ e ++ "\x7d`") := by
  obtain ⟨_, hp, _⟩ := spells_of_ofSource h
  obtain ⟨_, hp', _⟩ := spells_of_ofSource h'
  have hts : (stream (parenthesized e)).Holds _ := lexemes_parenthesized e ▸ Stream.holds_lex _ _
  have hts' : (stream (substituted e)).Holds _ := lexemes_substituted e ▸ Stream.holds_lex _ _
  have hsub := hp.substitution_closes rfl hts hts' (Stream.holds_lex _ _) hp'
  obtain ⟨_, htemplate, hspells, hend⟩ := hsub.templateProgram hts'
  obtain ⟨q, hq, hbare⟩ := ofSource_of_derives rfl hspells hend
  obtain rfl : p' = q := Except.ok.inj (h'.symm.trans hq)
  have htext : (stream (substituted e)).textBetween 2 (7 + (Lexeme.lexemes e.toList).length) =
      "`$\x7b" ++ e ++ "\x7d`" := by
    rw [← String.toList_inj, hts'.template_text, Lexeme.textOf_lexemes]
    simp
  rw [hbare, htemplate, htext]

end Program

namespace LoadedModule

theorem print_template (path raw : String) (sp₁ sp₂ sp₃ sp₄ : Span) :
    (Program.toFactory path
      [.expr sp₁ (.assign sp₂ .assign (.ident sp₃ "x") (.template sp₄ raw))]).print =
    "moduleFns." ++ ModulePath.id path ++
      "=function()\x7bvar module=\x7bexports:\x7b\x7d,es6:\x7b\x7d,hasES6Exports:false\x7d;x=" ++
      raw ++ ";return module;\x7d;" := by
  have hstmt : Stmt.print (.expr sp₁ (.assign sp₂ .assign (.ident sp₃ "x") (.template sp₄ raw))) =
      "x=" ++ raw ++ ";" := by
    rw [← String.toList_inj, Stmt.toList_print]
    change Piece.renderAfter none
      (.apart "x" :: .apart (String.singleton '=') :: .apart raw :: [.tight ";"]) = _
    rw [Piece.renderAfter, Piece.renderAfter_sign (by decide), Piece.renderAfter_apart (by decide)]
    simp [Piece.renderAfter, Piece.textAfter, Piece.needsBlank]
  change Program.print [factory path false
    [.expr sp₁ (.assign sp₂ .assign (.ident sp₃ "x") (.template sp₄ raw))]] = _
  rw [print_factory, List.map_singleton, hstmt, ← String.toList_inj]
  simp

/-- Substitutions are not compiled.  Where a text is read in parentheses and in
a substitution, the module with the substitution is its template as it is
written, and names no other module. -/
theorem ofText_substituted {path e : String} {m m' : LoadedModule}
    (h : ofText path (Program.parenthesized e) = .ok m)
    (h' : ofText path (Program.substituted e) = .ok m') :
    m'.imports = [] ∧ m'.code = "moduleFns." ++ ModulePath.id path ++
      "=function()\x7bvar module=\x7bexports:\x7b\x7d,es6:\x7b\x7d,hasES6Exports:false\x7d;x=" ++
      ("`$\x7b" ++ e ++ "\x7d`") ++ ";return module;\x7d;" := by
  unfold ofText at h h'
  split at h
  · split at h'
    · rename_i p hp _ p' hp'
      obtain rfl := Except.ok.inj h'
      obtain ⟨s, rfl, hs⟩ := Stmt.single_of_listBare (Program.ofSource_substituted hp hp')
      obtain ⟨sp₁, value, rfl, hvalue⟩ := Stmt.expr_of_bare hs
      obtain ⟨sp₂, target, source, rfl, htarget, hsource⟩ := Expr.assign_of_bare hvalue
      obtain ⟨sp₃, rfl⟩ := Expr.ident_of_bare htarget
      obtain ⟨sp₄, rfl⟩ := Expr.template_of_bare hsource
      exact ⟨rfl, print_template path _ sp₁ sp₂ sp₃ sp₄⟩
    · cases h'
  · cases h

theorem exists_of_imports (path text : String) (paths : List String)
    (h : (ofText path text).toOption.map LoadedModule.imports = some paths) :
    ∃ m, ofText path text = .ok m ∧ m.imports = paths := by
  cases hm : ofText path text with
  | ok m =>
    rw [hm] at h
    exact ⟨m, rfl, Option.some.inj h⟩
  | error cause =>
    rw [hm] at h
    cases h

/-- An object and a template of its own do not close the substitution. -/
theorem ofText_substituted_nested : ∃ m m',
    ofText "index.js" (Program.parenthesized "\x7ba:`$\x7brequire('./a')\x7d`\x7d") = .ok m ∧
    ofText "index.js" (Program.substituted "\x7ba:`$\x7brequire('./a')\x7d`\x7d") = .ok m' ∧
    m'.imports = [] ∧ m'.code = "moduleFns." ++ ModulePath.id "index.js" ++
      "=function()\x7bvar module=\x7bexports:\x7b\x7d,es6:\x7b\x7d,hasES6Exports:false\x7d;x=" ++
      ("`$\x7b" ++ "\x7ba:`$\x7brequire('./a')\x7d`\x7d" ++ "\x7d`") ++ ";return module;\x7d;" := by
  obtain ⟨m, hm, _⟩ := exists_of_imports "index.js"
    (Program.parenthesized "\x7ba:`$\x7brequire('./a')\x7d`\x7d") [] (by decide +kernel)
  obtain ⟨m', hm', _⟩ := exists_of_imports "index.js"
    (Program.substituted "\x7ba:`$\x7brequire('./a')\x7d`\x7d") [] (by decide +kernel)
  exact ⟨m, m', hm, hm', ofText_substituted hm hm'⟩

/-- In parentheses a call of `require` names a module, in a substitution it does
not. -/
theorem imports_substituted_ne : ∃ m m',
    ofText "index.js" (Program.parenthesized "require('./a')") = .ok m ∧
    ofText "index.js" (Program.substituted "require('./a')") = .ok m' ∧
    m.imports = ["a.js"] ∧ m'.imports ≠ m.imports := by
  obtain ⟨m, hm, himports⟩ := exists_of_imports "index.js"
    (Program.parenthesized "require('./a')") ["a.js"] (by decide +kernel)
  obtain ⟨m', hm', himports'⟩ := exists_of_imports "index.js"
    (Program.substituted "require('./a')") [] (by decide +kernel)
  refine ⟨m, m', hm, hm', himports, ?_⟩
  rw [himports, himports']
  exact nofun

end LoadedModule
end ScriptBundler
