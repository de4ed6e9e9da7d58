import ScriptBundler.Proofs.Lexing

/-!
# Printed pieces and the lexemes they become

Rendering writes pieces behind each other and adds blanks where two of them
would be read as one lexeme.  What a piece ends in says which characters may
follow it.  A list of pieces in which each one may follow the one before is cut
into the lexemes of its pieces again, with blanks between them.
-/

namespace ScriptBundler

variable {mark : Punctuator} {d c : Char} {l : Lexeme} {ls : List Lexeme} {more : List Char}

/-!
# Edges

The edge of a text is what it ends in, as far as that decides which character may
follow.
-/

/-- What a text ends in, as far as it matters for the character behind it. -/
inductive Edge where
  /-- A word, a literal or a mark that is never part of a longer one. -/
  | settled
  | blank
  /-- A mark that longer ones start with. -/
  | opened
  /-- The point in front of the name of a property. -/
  | point
  | number
  /-- A number that would take a point behind it for its own. -/
  | digits
deriving DecidableEq, Repr

namespace Edge

/-- Whether a text with this edge is told from a text that starts with a
character.  A blank between two words, two pluses or two minuses is added by
rendering. -/
def admits : Edge → Char → Bool
  | settled, _ => true
  | blank, d => !Lexeme.isBlank d
  | opened, d => !(['=', '<', '>', '*', '&', '|', '/'].contains d)
  | point, d => Lexeme.isWordStart d
  | number, d => !(d.isDigit || d == 'e' || d == 'E')
  | digits, d => !(d.isDigit || d == 'e' || d == 'E' || d == '.')

end Edge

namespace Punctuator

def isOpen (mark : Punctuator) : Bool :=
  all.any fun other => mark.chars.isPrefixOf other.chars && other != mark

def edge (mark : Punctuator) : Edge :=
  if mark = .dot then .point else if mark.isOpen then .opened else .settled

theorem not_goesOn_of_not_isOpen (h : mark.isOpen = false) (d : Char) : mark.goesOn d = false := by
  refine Bool.eq_false_iff.mpr fun hgoes => ?_
  unfold goesOn at hgoes
  obtain ⟨other, hmem, hother⟩ := List.any_eq_true.mp hgoes
  have hprefix := List.isPrefixOf_iff_prefix.mp hother
  unfold isOpen at h
  refine absurd ?_ (List.any_eq_false.mp h other hmem)
  rw [Bool.and_eq_true]
  refine ⟨List.isPrefixOf_iff_prefix.mpr ((List.prefix_append _ _).trans hprefix), ?_⟩
  rw [bne_iff_ne]
  rintro rfl
  have hle := hprefix.length_le
  rw [List.length_append, List.length_singleton] at hle
  omega

theorem goesOn_cases (h : mark.goesOn d = true) :
    d ∈ ['=', '<', '>', '*', '&', '|'] ∨ mark = .plus ∧ d = '+' ∨ mark = .minus ∧ d = '-' ∨
      mark = .dot ∧ d = '.' := by
  have hchars : ∀ other ∈ all, other.chars.tail.all
      (['=', '<', '>', '*', '&', '|', '+', '-', '.'].contains ·) = true := by decide
  have hplus : mark.goesOn '+' = true → mark = .plus := by cases mark <;> decide
  have hminus : mark.goesOn '-' = true → mark = .minus := by cases mark <;> decide
  have hdot : mark.goesOn '.' = true → mark = .dot := by cases mark <;> decide
  have hgoes := h
  unfold goesOn at hgoes
  obtain ⟨other, hmem, hother⟩ := List.any_eq_true.mp hgoes
  obtain ⟨rest, hrest⟩ := List.isPrefixOf_iff_prefix.mp hother
  have hd : d ∈ other.chars.tail := by
    rw [← hrest, List.append_assoc, List.tail_append_of_ne_nil (List.ne_nil_of_length_pos
      (length_chars_pos mark))]
    exact List.mem_append_right _ List.mem_cons_self
  have hcases := List.contains_iff_mem.mp (List.all_eq_true.mp (hchars other hmem) d hd)
  simp only [List.mem_cons, List.not_mem_nil, or_false] at hcases ⊢
  rcases hcases with rfl | rfl | rfl | rfl | rfl | rfl | rfl | rfl | rfl
  · simp
  · simp
  · simp
  · simp
  · simp
  · simp
  · exact .inr (.inl ⟨hplus h, rfl⟩)
  · exact .inr (.inr (.inl ⟨hminus h, rfl⟩))
  · exact .inr (.inr (.inr ⟨hdot h, rfl⟩))

end Punctuator

namespace Lexeme

def edge (l : Lexeme) : Edge :=
  match l.kind with
  | .space => .blank
  | .number => if l.text.toList.all Char.isDigit then .digits else .number
  | .punct mark => mark.edge
  | _ => .settled

def isPlain (l : Lexeme) : Bool :=
  match l.kind with
  | .identifier | .keyword _ | .number | .space | .punct _ => true
  | _ => false

theorem isAlphanumeric_of_isAlphanum (h : c.isAlphanum = true) : Text.isAlphanumeric c = true := by
  have hlt : c.toNat < 128 := by
    unfold Char.isAlphanum Char.isAlpha Char.isUpper Char.isLower Char.isDigit at h
    simp only [Bool.or_eq_true, Bool.and_eq_true, decide_eq_true_eq, ge_iff_le,
      UInt32.le_iff_toNat_le] at h
    change c.val.toNat < 128
    rcases h with (⟨_, h⟩ | ⟨_, h⟩) | ⟨_, h⟩ <;> exact Nat.lt_of_le_of_lt h (by decide)
  unfold Text.isAlphanumeric
  rw [if_pos hlt, h]

theorem isWordChar_of_isWordPart (h : isWordPart c = true) : Piece.isWordChar c = true := by
  unfold isWordPart isWordStart at h
  unfold Piece.isWordChar
  have halphanum : c.isAlphanum = true → Text.isAlphanumeric c = true :=
    isAlphanumeric_of_isAlphanum
  unfold Char.isAlphanum at halphanum
  simp only [Bool.or_eq_true] at h halphanum ⊢
  rcases h with ((h | h) | h) | h
  · exact .inl (.inl (halphanum (.inl h)))
  · exact .inl (.inr h)
  · exact .inr h
  · exact .inl (.inl (halphanum (.inr h)))

theorem merges_of_isWordPart (hc : isWordPart c = true) (hd : isWordPart d = true) :
    Piece.merges c d = true := by
  unfold Piece.merges
  rw [isWordChar_of_isWordPart hc, isWordChar_of_isWordPart hd]
  rfl

/-! A mark ends before a blank, and before what its edge admits. -/

theorem endsBefore_blank (mark : Punctuator) :
    (mark.goesOn ' ' || (mark == .dot && ' '.isDigit)) = false := by
  cases mark <;> decide

theorem endsBefore_mark (hlast : mark.chars.getLast? = some c) (h : mark.edge.admits d = true)
    (hmerges : Piece.merges c d = false) :
    (mark.goesOn d || (mark == .dot && d.isDigit)) = false := by
  unfold Punctuator.edge at h
  rw [Bool.or_eq_false_iff]
  split at h
  · rename_i hdot
    subst hdot
    have hd : isWordStart d = true := h
    refine ⟨Bool.eq_false_iff.mpr fun hgoes => ?_, not_isDigit_of_isWordStart hd⟩
    rcases Punctuator.goesOn_cases hgoes with hmem | ⟨hmark, _⟩ | ⟨hmark, _⟩ | ⟨_, rfl⟩
    · have hnone : ∀ x ∈ ['=', '<', '>', '*', '&', '|'], isWordStart x = false := by
        simp [isWordStart]
      rw [hnone d hmem] at hd
      cases hd
    · cases hmark
    · cases hmark
    · cases hd
  · rename_i hdot
    rw [beq_false_of_ne hdot]
    refine ⟨?_, rfl⟩
    split at h
    · refine Bool.eq_false_iff.mpr fun hgoes => ?_
      rcases Punctuator.goesOn_cases hgoes with hmem | ⟨rfl, rfl⟩ | ⟨rfl, rfl⟩ | ⟨hmark, _⟩
      · have hnone : ∀ x ∈ ['=', '<', '>', '*', '&', '|'], Edge.opened.admits x = false := by
          simp [Edge.admits]
        rw [hnone d hmem] at h
        cases h
      · cases hlast
        cases hmerges
      · cases hlast
        cases hmerges
      · exact hdot hmark
    · rename_i hopen
      exact Punctuator.not_goesOn_of_not_isOpen (Bool.eq_false_iff.mpr hopen) d

theorem endsBefore_of_edge (hown : lexemes l.text.toList = [l]) (hplain : l.isPlain = true)
    (hlast : l.text.toList.getLast? = some c)
    (h : l.kind ≠ .space ∧ d = ' ' ∨ l.edge.admits d = true ∧ Piece.merges c d = false) :
    l.endsBefore d = true := by
  have hmem : c ∈ l.text.toList := List.mem_of_getLast? hlast
  have hname : l.kind.isName = true → isWordPart d = false := by
    intro hk
    rcases h with ⟨_, rfl⟩ | ⟨_, hmerges⟩
    · rfl
    · obtain ⟨first, rest, htext, _, hparts⟩ := isWordPart_of_isName hown hk
      refine Bool.eq_false_iff.mpr fun hd => ?_
      rw [merges_of_isWordPart (hparts c (htext ▸ hmem)) hd] at hmerges
      cases hmerges
  unfold endsBefore
  unfold edge at h
  unfold isPlain at hplain
  split
  · rename_i hk
    rw [hname (by rw [hk]; rfl)]
    rfl
  · rename_i word hk
    rw [hname (by rw [hk]; rfl)]
    rfl
  · -- A number.
    rename_i hk
    simp only [hk] at h
    unfold endsNumber
    rcases h with ⟨_, rfl⟩ | ⟨hadmits, hmerges⟩
    · simp [show isWordPart ' ' = false from rfl]
    · have hpart : (l.text.toList.getLast?.any isWordPart && isWordPart d) = false := by
        rw [hlast, Option.any_some]
        refine Bool.eq_false_iff.mpr fun hboth => ?_
        rw [Bool.and_eq_true] at hboth
        rw [merges_of_isWordPart hboth.1 hboth.2] at hmerges
        cases hmerges
      rw [hpart]
      split at hadmits
      · rename_i hall
        rw [hall]
        simpa [Edge.admits, and_assoc] using hadmits
      · rename_i hall
        rw [Bool.eq_false_iff.mpr hall]
        simpa [Edge.admits, and_assoc] using hadmits
  · -- A blank.
    rename_i hk
    simp only [hk] at h
    rcases h with ⟨hno, _⟩ | ⟨hadmits, _⟩
    · exact absurd rfl hno
    · exact hadmits
  · rename_i mark hk
    rw [toList_eq_chars hown hk] at hlast
    simp only [hk] at h
    rw [Bool.not_eq_eq_eq_not, Bool.not_true]
    rcases h with ⟨_, rfl⟩ | ⟨hadmits, hmerges⟩
    · exact endsBefore_blank mark
    · exact endsBefore_mark hlast hadmits hmerges
  · rename_i hidentifier hkeyword hnumber hspace hpunct
    split at hplain
    · exact absurd ‹_› hidentifier
    · exact absurd ‹_› (hkeyword _)
    · exact absurd ‹_› hnumber
    · exact absurd ‹_› hspace
    · exact absurd ‹_› (hpunct _)
    · cases hplain

end Lexeme

/-!
# Shapes of pieces

The shape of a piece is the character it starts with and the edge it ends in.
-/

/-- One lexeme, or the lexemes of a literal, which stay together. -/
inductive Mark where
  | word (l : Lexeme)
  | literal (ls : List Lexeme)
deriving DecidableEq, Repr

namespace Piece

def text : Piece → String
  | .apart text | .tight text => text

def lexemes (p : Piece) : List Lexeme :=
  Lexeme.lexemes p.text.toList

def isLiteral (p : Piece) : Bool :=
  p.text.toList.head?.any Lexeme.isQuote

def marks (p : Piece) : List Mark :=
  if p.isLiteral then [.literal p.lexemes]
  else (p.lexemes.filter (fun l => l.kind ≠ .space)).map .word

def joins : List Lexeme → Bool
  | l :: l' :: rest =>
    decide (l.kind ≠ .punct .slash) && l'.text.toList.head?.all l.endsBefore && joins (l' :: rest)
  | _ => true

/-- A piece that starts with a character and ends in an edge. -/
inductive Shape (p : Piece) : Char → Edge → Prop
  | words {d : Char} {t : List Char} {l : Lexeme} : p.text.toList = d :: t → p.isLiteral = false →
      p.lexemes.all Lexeme.isPlain = true → joins p.lexemes = true →
      p.lexemes.getLast? = some l → Shape p d l.edge
  | literal {d : Char} {t : List Char} : p.text.toList = d :: t → Lexeme.isQuote d = true →
      (∀ more, Lexeme.lexemes (p.text.toList ++ more) = p.lexemes ++ Lexeme.lexemes more) →
      Shape p d .settled

/-- Pieces each of which may follow the one before, or a text with a given edge
the first one. -/
inductive Walks : Edge → List Piece → Edge → Prop
  | done {edge : Edge} : Walks edge [] edge
  | apart {edge edge₁ edge₂ : Edge} {text : String} {d : Char} {ps : List Piece} :
      Shape (.apart text) d edge₁ → edge.admits d = true → Walks edge₁ ps edge₂ →
      Walks edge (.apart text :: ps) edge₂
  | tight {edge edge₁ edge₂ : Edge} {text : String} {d : Char} {ps : List Piece} :
      Shape (.tight text) d edge₁ → edge.admits d = true → d = ' ' ∨ d = ';' →
      Walks edge₁ ps edge₂ → Walks edge (.tight text :: ps) edge₂

theorem Walks.append {edge edge₁ edge₂ : Edge} {ps qs : List Piece} (h : Walks edge ps edge₁)
    (h' : Walks edge₁ qs edge₂) : Walks edge (ps ++ qs) edge₂ := by
  induction h with
  | done => exact h'
  | apart hshape hadmits _ ih => exact .apart hshape hadmits (ih h')
  | tight hshape hadmits htight _ ih => exact .tight hshape hadmits htight (ih h')

/-!
# Rendering

Pieces that walk from edge to edge are cut into their own lexemes when they are
rendered.
-/

/-- Lexemes that are those of marks with blanks between them. -/
inductive Lays : List Mark → List Lexeme → Prop
  | done : Lays [] []
  | blank {l : Lexeme} {ms : List Mark} {ls : List Lexeme} : l.kind = .space → Lays ms ls →
      Lays ms (l :: ls)
  | word {l : Lexeme} {ms : List Mark} {ls : List Lexeme} : l.isPlain = true →
      l.kind ≠ .space →
      (l.kind = .punct .slash → ∀ d ∈ (Lexeme.textOf ls).head?, d ≠ '/' ∧ d ≠ '*') →
      Lays ms ls → Lays (.word l :: ms) (l :: ls)
  | literal {l : Lexeme} {lit ls : List Lexeme} {ms : List Mark} :
      l.kind = .stringQuote ∨ l.kind = .templateQuote → Lays ms ls →
      Lays (.literal (l :: lit) :: ms) (l :: lit ++ ls)

section
variable {p : Piece} {edge edge' : Edge} {last : Option Char} {ps : List Piece}

theorem lexemes_joined (hown : ∀ l ∈ ls, Lexeme.lexemes l.text.toList = [l])
    (hjoins : joins ls = true)
    (hlast : ∀ l ∈ ls.getLast?, ∀ d ∈ more.head?, l.endsBefore d = true) :
    Lexeme.lexemes (Lexeme.textOf ls ++ more) = ls ++ Lexeme.lexemes more := by
  induction ls with
  | nil => rfl
  | cons l ls ih =>
    rw [Lexeme.textOf_cons, List.append_assoc]
    have hl := hown l List.mem_cons_self
    cases ls with
    | nil => exact Lexeme.lexemes_append hl (hlast l rfl)
    | cons l' rest =>
      unfold joins at hjoins
      simp only [Bool.and_eq_true] at hjoins
      have hrest := ih (fun x hx => hown x (List.mem_cons_of_mem l hx)) hjoins.2
        (by rw [List.getLast?_cons_cons] at hlast; exact hlast)
      have hends : ∀ d ∈ (Lexeme.textOf (l' :: rest) ++ more).head?, l.endsBefore d = true := by
        obtain ⟨first, text, htext, _⟩ :=
          Lexeme.lexemes_eq_singleton (hown l' (List.mem_cons_of_mem l List.mem_cons_self))
        have hfirst := hjoins.1.2
        rw [htext, List.head?_cons, Option.all_some] at hfirst
        intro d hd
        rw [Lexeme.textOf_cons, htext] at hd
        exact Option.some.inj hd ▸ hfirst
      rw [Lexeme.lexemes_append hl hends, hrest]
      rfl

theorem lays_words {ls rest : List Lexeme} {ms : List Mark}
    (hplain : ls.all Lexeme.isPlain = true) (hjoins : joins ls = true)
    (hslash : ∀ l ∈ ls.getLast?, l.kind = .punct .slash →
      ∀ d ∈ (Lexeme.textOf rest).head?, d ≠ '/' ∧ d ≠ '*') (h : Lays ms rest) :
    Lays ((ls.filter (fun l => l.kind ≠ .space)).map .word ++ ms) (ls ++ rest) := by
  induction ls with
  | nil => exact h
  | cons l ls ih =>
    rw [List.all_cons, Bool.and_eq_true] at hplain
    have hinner : Lays ((ls.filter (fun l => l.kind ≠ .space)).map .word ++ ms) (ls ++ rest) := by
      cases ls with
      | nil => exact h
      | cons l' ls =>
        unfold joins at hjoins
        simp only [Bool.and_eq_true] at hjoins
        exact ih hplain.2 hjoins.2 (by rw [List.getLast?_cons_cons] at hslash; exact hslash)
    by_cases hspace : l.kind = .space
    · rw [List.filter_cons_of_neg (by simpa using hspace)]
      exact .blank hspace hinner
    · rw [List.filter_cons_of_pos (by simpa using hspace)]
      refine .word hplain.1 hspace (fun hk => ?_) hinner
      cases ls with
      | nil => exact hslash l rfl hk
      | cons l' ls =>
        unfold joins at hjoins
        simp only [Bool.and_eq_true, decide_eq_true_eq] at hjoins
        exact absurd hk hjoins.1.1

/-- What follows a text with a given edge and a given last character: a blank
that was added, or a character that the edge admits. -/
def Follows (edge : Edge) (last : Option Char) (d : Char) : Prop :=
  (∃ c ∈ last, d = ' ' ∧ ∃ first, merges c first = true) ∨
    edge.admits d = true ∧ ∀ c ∈ last, merges c d = false

theorem kind_ne_space_of_merges {first : Char} (hown : Lexeme.lexemes l.text.toList = [l])
    (hlast : l.text.toList.getLast? = some c) (h : merges c first = true) : l.kind ≠ .space := by
  intro hk
  have hmem := List.mem_of_getLast? hlast
  have hlexeme := Lexeme.isLexeme_of_own hown hk nofun
  have hblank : Lexeme.isBlank c = true := by
    generalize l.text.toList = text at hlexeme hmem
    cases hlexeme with
    | space _ hblanks => exact hblanks c hmem
  simp only [Lexeme.isBlank, Bool.or_eq_true, beq_iff_eq] at hblank
  unfold merges at h
  rcases hblank with (rfl | rfl) | rfl
  · rw [show isWordChar ' ' = false from rfl] at h
    cases h
  · rw [show isWordChar '\t' = false from rfl] at h
    cases h
  · rw [show isWordChar '\r' = false from rfl] at h
    cases h

theorem getLast?_textOf (h : ls.getLast? = some l) (hl : l.text.toList ≠ []) :
    (Lexeme.textOf ls).getLast? = l.text.toList.getLast? := by
  obtain ⟨front, rfl⟩ := List.getLast?_eq_some_iff.mp h
  rw [Lexeme.textOf_append, Lexeme.textOf_cons, Lexeme.textOf_nil, List.append_nil,
    List.getLast?_append, List.getLast?_eq_some_getLast hl, Option.some_or]

theorem Shape.lexemes_append (h : p.Shape d edge)
    (hmore : ∀ d' ∈ more.head?, Follows edge p.text.toList.getLast? d') :
    Lexeme.lexemes (p.text.toList ++ more) = p.lexemes ++ Lexeme.lexemes more := by
  cases h with
  | literal _ _ hfirm => exact hfirm more
  | @words t l htext _ hplain hjoins hlast =>
    have hown : ∀ l ∈ p.lexemes, Lexeme.lexemes l.text.toList = [l] :=
      fun l hl => Lexeme.lexemes_of_mem hl
    have htextOf : Lexeme.textOf p.lexemes = p.text.toList := Lexeme.textOf_lexemes _
    have hl := List.mem_of_getLast? hlast
    obtain ⟨c₀, t₀, htext₀, _⟩ := Lexeme.lexemes_eq_singleton (hown l hl)
    have hends := getLast?_textOf hlast (by rw [htext₀]; exact List.cons_ne_nil _ _)
    rw [htextOf] at hends
    have hjoined : Lexeme.lexemes (Lexeme.textOf p.lexemes ++ more) =
        p.lexemes ++ Lexeme.lexemes more := by
      refine lexemes_joined hown hjoins fun l' hl' d' hd' => ?_
      obtain rfl : l = l' := Option.some.inj (hlast.symm.trans hl')
      rw [hends] at hmore
      obtain ⟨c, hc⟩ : ∃ c, l.text.toList.getLast? = some c := by
        rw [htext₀]
        exact ⟨_, List.getLast?_cons⟩
      refine Lexeme.endsBefore_of_edge (hown l hl) (List.all_eq_true.mp hplain l hl) hc ?_
      rcases hmore d' hd' with ⟨c', hc', rfl, first, hmerges⟩ | ⟨hadmits, hmerges⟩
      · exact .inl ⟨kind_ne_space_of_merges (hown l hl) hc' hmerges, rfl⟩
      · exact .inr ⟨hadmits, hmerges c hc⟩
    rw [← hjoined, htextOf]

theorem Shape.lays {rest : List Lexeme} {ms : List Mark} (h : p.Shape d edge)
    (hrest : ∀ d' ∈ (Lexeme.textOf rest).head?, Follows edge p.text.toList.getLast? d')
    (hlays : Lays ms rest) : Lays (p.marks ++ ms) (p.lexemes ++ rest) := by
  unfold marks
  cases h with
  | @literal t htext hquote =>
    have hliteral : p.isLiteral = true := by
      rw [isLiteral, htext]
      exact hquote
    rw [if_pos hliteral]
    unfold lexemes
    rw [htext, Lexeme.lexemes]
    refine .literal ?_ hlays
    rcases Lexeme.isQuote_iff.mp hquote with rfl | rfl | rfl
    · exact .inl rfl
    · exact .inl rfl
    · exact .inr rfl
  | @words t l htext hno hplain hjoins hlast =>
    rw [hno, if_neg Bool.false_ne_true]
    refine lays_words hplain hjoins (fun l' hl' hk d' hd' => ?_) hlays
    obtain rfl : l = l' := Option.some.inj (hlast.symm.trans hl')
    have hedge : l.edge = .opened := by
      rw [Lexeme.edge, hk]
      rfl
    rw [hedge] at hrest
    rcases hrest d' hd' with ⟨_, _, rfl, _⟩ | ⟨hadmits, _⟩
    · exact ⟨by decide, by decide⟩
    · constructor <;>
      · rintro rfl
        cases hadmits

theorem Shape.toList_eq (h : p.Shape d edge) : ∃ t, p.text.toList = d :: t := by
  cases h with
  | words htext => exact ⟨_, htext⟩
  | literal htext => exact ⟨_, htext⟩

theorem Walks.follows (h : Walks edge ps edge') :
    ∀ d ∈ (renderAfter last ps).head?, Follows edge last d := by
  intro d hd
  cases h with
  | done => cases hd
  | @apart _ _ _ text d₀ ps hshape hadmits _ =>
    obtain ⟨t, htext⟩ := hshape.toList_eq
    change text.toList = d₀ :: t at htext
    rw [renderAfter, textAfter, htext] at hd
    cases last with
    | none =>
      obtain rfl : d₀ = d := Option.some.inj hd
      exact .inr ⟨hadmits, nofun⟩
    | some c =>
      cases hmerges : merges c d₀ with
      | true =>
        simp only [needsBlank, hmerges, if_true] at hd
        obtain rfl : ' ' = d := Option.some.inj hd
        exact .inl ⟨c, rfl, rfl, d₀, hmerges⟩
      | false =>
        simp only [needsBlank, hmerges, Bool.false_eq_true, if_false] at hd
        obtain rfl : d₀ = d := Option.some.inj hd
        refine .inr ⟨hadmits, fun c' hc' => ?_⟩
        rw [← Option.some.inj hc', hmerges]
  | @tight _ _ _ text d₀ ps hshape hadmits htight _ =>
    obtain ⟨t, htext⟩ := hshape.toList_eq
    change text.toList = d₀ :: t at htext
    rw [renderAfter, textAfter, htext] at hd
    obtain rfl : d₀ = d := Option.some.inj hd
    refine .inr ⟨hadmits, fun c hc => ?_⟩
    unfold merges
    rcases htight with rfl | rfl
    · rw [show isWordChar ' ' = false from rfl]
      simp
    · rw [show isWordChar ';' = false from rfl]
      simp

theorem Shape.lays_append (h : p.Shape d edge) (hwalks : Walks edge ps edge')
    (hlays : Lays (ps.flatMap marks) (Lexeme.lexemes (renderAfter p.text.toList.getLast? ps))) :
    Lays (p.marks ++ ps.flatMap marks)
      (Lexeme.lexemes (p.text.toList ++ renderAfter p.text.toList.getLast? ps)) := by
  have hfollows : ∀ d ∈ (renderAfter p.text.toList.getLast? ps).head?,
      Follows edge p.text.toList.getLast? d := hwalks.follows
  rw [h.lexemes_append hfollows]
  refine h.lays ?_ hlays
  rw [Lexeme.textOf_lexemes]
  exact hfollows

theorem not_isBlank_of_merges {c first : Char} (h : merges c first = true) :
    Lexeme.isBlank first = false := by
  refine Bool.eq_false_iff.mpr fun hblank => ?_
  simp only [Lexeme.isBlank, Bool.or_eq_true, beq_iff_eq] at hblank
  unfold merges at h
  rcases hblank with (rfl | rfl) | rfl
  · rw [show isWordChar ' ' = false from rfl] at h
    simp at h
  · rw [show isWordChar '\t' = false from rfl] at h
    simp at h
  · rw [show isWordChar '\r' = false from rfl] at h
    simp at h

theorem lexemes_blank (h : ∀ d ∈ more.head?, Lexeme.isBlank d = false) :
    Lexeme.lexemes (' ' :: more) = ⟨.space, " "⟩ :: Lexeme.lexemes more := by
  have hown : Lexeme.lexemes (⟨.space, " "⟩ : Lexeme).text.toList = [⟨.space, " "⟩] := by
    decide +kernel
  refine Lexeme.lexemes_append hown fun d hd => ?_
  rw [Lexeme.endsBefore, h d hd]
  rfl

/-- Rendered pieces are cut into the lexemes of the pieces. -/
theorem Walks.lays (h : Walks edge ps edge') :
    Lays (ps.flatMap marks) (Lexeme.lexemes (renderAfter last ps)) := by
  induction h generalizing last with
  | done =>
    rw [renderAfter, Lexeme.lexemes]
    exact .done
  | @apart _ _ _ text d₀ ps hshape hadmits hwalks ih =>
    obtain ⟨t, htext⟩ := hshape.toList_eq
    change text.toList = d₀ :: t at htext
    have hlays := hshape.lays_append hwalks ih
    change Lays _ (Lexeme.lexemes (text.toList ++ renderAfter text.toList.getLast? ps)) at hlays
    rw [List.flatMap_cons, renderAfter, textAfter]
    split
    · rename_i hblank
      have hlast : (' ' :: text.toList).getLast?.or last = text.toList.getLast? := by
        rw [htext, List.getLast?_cons_cons, List.getLast?_cons, Option.some_or]
      rw [hlast, List.cons_append, lexemes_blank ?_]
      · exact .blank rfl hlays
      · intro d hd
        rw [htext] at hd hblank
        obtain rfl : d₀ = d := Option.some.inj hd
        cases last with
        | none => cases hblank
        | some c => exact not_isBlank_of_merges hblank
    · have hlast : text.toList.getLast?.or last = text.toList.getLast? := by
        rw [htext, List.getLast?_cons, Option.some_or]
      rw [hlast]
      exact hlays
  | @tight _ _ _ text d₀ ps hshape hadmits htight hwalks ih =>
    obtain ⟨t, htext⟩ := hshape.toList_eq
    change text.toList = d₀ :: t at htext
    have hlast : text.toList.getLast?.or last = text.toList.getLast? := by
      rw [htext, List.getLast?_cons, Option.some_or]
    rw [List.flatMap_cons, renderAfter, textAfter]
    rw [hlast]
    exact hshape.lays_append hwalks ih

end

end Piece
end ScriptBundler
