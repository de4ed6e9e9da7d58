import ScriptBundler.Proofs.Finding

/-!
# Names in front of arrow functions

An expression can end in the name `async` at the end of a line, with `name =>`
on the next one.  The two lines are one arrow function then, unless what follows
the arrow cannot be read.  When the first line has been read, this is not known
yet: all that can be said is that no arrow function follows that could have been
taken (`Guarded`).  What follows in a whole program can be read, so there no
arrow follows at all (`Halts`).
-/

namespace ScriptBundler
namespace Grammar

open Grammar.Parser

variable {e : Expr} {noIn : Bool} {H : Ending} {rd : Reading}

def Arrowed (ts : Reading) (noIn : Bool) (j : Nat) : Prop :=
  ts.ArrowAt j ∧ ∃ cx e j', cx.noIn = noIn ∧ isArrow e = true ∧
    Spells ts.placed (.expr cx e) j j' ∧ Ends ts noIn j' e

/-- An expression between commas does not go on, and it does not end in an
`async` in front of an arrow function. -/
def Guarded (ts : Reading) : Ending := fun noIn j e =>
  Stops ts noIn j e ∧ (endsInName e = true → (ts.token (j - 1)).kind = .keyword .kwAsync →
    ¬ Arrowed ts noIn j)

section
variable {ts : Reading} {cx : Context} {i j : Nat}

theorem Derives.isArrow_of_arrowAt (h : Spells ts.placed (.expr cx e) i j) [ts.Ended]
    (hlevel : Level.assignment ≤ e.level) (hends : Ends ts cx.noIn j e) (harrow : ts.ArrowAt i) :
    isArrow e = true := by
  obtain ⟨hk, hk', hline⟩ := harrow
  rcases h.lead_operand hlevel (by rw [hk]; rfl) with ⟨hyes, _⟩ | ⟨hmark, _⟩ |
    ⟨x, m, hbase, hext⟩
  · exact hyes
  · rw [hk] at hmark
    rcases hmark with hmark | hmark <;> cases hmark
  cases hbase with
  | word _ htake =>
    have hpast : ts.past i = m := htake.1
    rw [hpast] at hk' hline
    rcases hext.goesOn with ⟨_, rfl⟩ | hgoes
    · cases (hends.arrow hk').symm.trans hline
    · rw [hk'] at hgoes
      cases hnoIn : cx.noIn <;> rw [hnoIn] at hgoes <;> cases hgoes
  | asyncFunction hyes => cases hk.symm.trans hyes
  | array hopen | object hopen | paren hopen => cases hk.symm.trans hopen.1
  | other hother =>
    rw [hk] at hother
    cases hother

theorem Derives.arrowed_of_stmt {st : Stmt} (h : Spells ts.placed (.stmt cx st) i j)
    [ts.Ended] (harrow : ts.ArrowAt i) : Arrowed ts cx.noIn i := by
  have hk : ts.kindAt i = .identifier := harrow.1
  have hfirst : ∀ {e j'}, Spells ts.placed (.expr cx e) i j' → Level.assignment ≤ e.level →
      Ends ts cx.noIn j' e → Arrowed ts cx.noIn i := fun he hlevel hends =>
    ⟨harrow, cx, _, _, rfl, he.isArrow_of_arrowAt hlevel hends harrow, he, hends⟩
  rcases h.stmt_cases with ⟨e, i₁, he, hstops, hclose⟩ | ⟨-, hcolon⟩ | hstart
  · by_cases hsequence : ∃ span items, e = .sequence span items
    · obtain ⟨span, items, rfl⟩ := hsequence
      cases he with
      | sequence hfirst' hlevel hothers =>
        refine hfirst hfirst' hlevel (.of_endsYield ?_)
        cases hothers with
        | other hread | moreOthers hread =>
          rw [hread.1]
          rfl
    · have hsequence : ∀ span items, e = .sequence span items → False :=
        fun span items he => hsequence ⟨span, items, he⟩
      have hquiet : Quiet ts.placed i₁ := .of_closes hclose
      have hends := (hstops.of_not_sequence hsequence).2
      exact hfirst he (assignment_le_level hsequence) ⟨hquiet, hends⟩
  · cases harrow.2.1.symm.trans hcolon
  · rw [show ts.placed.kindAt i = _ from hk] at hstart
    cases hstart

/-! # Programs as a whole

A guarded expression is one that halts as soon as what follows it is known to be
an arrow function, or not to start with an arrow. -/

/-- Phrases that can end in an expression that is ended by the next token, and
whether `in` is an operator there. -/
def Phrase.openEnd : Phrase → Option Bool
  | .value cx _ | .item cx _ _ | .member cx _ | .decl cx _ | .decls cx _ | .stmt cx _
  | .stmts cx _ _ | .exported cx _ => some cx.noIn
  | .forInit _ _ => some true
  | _ => none

/-- What is spelled once it is known what follows. -/
def Tamed (ts : Reading) (ph : Phrase) (i j : Nat) : Prop :=
  match ph.openEnd with
  | none => Spells ts.placed ph i j
  | some noIn => (ts.ArrowAt j → Arrowed ts noIn j) → Spells ts.placed ph i j

theorem Guarded.halts (h : Guarded ts noIn j e) (hj : ts.ArrowAt j → Arrowed ts noIn j) :
    Halts ts noIn j e :=
  ⟨h.1, fun hname hlast harrow => h.2 hname hlast (hj harrow)⟩

theorem SequenceStops.mono {H H' : Ending} (h : SequenceStops ts H noIn j e)
    (hH : ∀ e, H noIn j e → H' noIn j e) : SequenceStops ts H' noIn j e := by
  cases e with
  | sequence => exact ⟨h.1, fun e he => hH e (h.2 e he)⟩
  | _ => exact ⟨h.1, hH _ h.2⟩

theorem Stream.not_arrowAt {k : Token.Kind} (hk : ts.kindAt i = k) (hne : k ≠ .identifier)
    {p : Prop} (h : ts.ArrowAt i) : p :=
  absurd (hk.symm.trans h.1) hne

theorem Reading.Closes.arrowed (h : ts.placed.Closes i j) (hj : ts.ArrowAt j → Arrowed ts noIn j)
    (harrow : ts.ArrowAt i) : Arrowed ts noIn i := by
  cases h with
  | mark hread => exact Stream.not_arrowAt hread.1 nofun harrow
  | brace | input | line => exact hj harrow

theorem Derives.stmts_end {stop : List Token.Kind} {body : List Stmt}
    (h : Derives rd H (.stmts cx stop body) i j) :
    rd.kindAt j = .endOfInput ∨ rd.kindAt j ∈ stop := by
  generalize hph : Phrase.stmts cx stop body = ph at h
  induction h generalizing body with
  | noStmts hstop =>
    cases hph
    exact hstop
  | moreStmts _ _ _ _ ih =>
    cases hph
    exact ih rfl
  | _ => cases hph

theorem Derives.not_arrowAt_of_member {m : ClassMember} (h : Derives rd H (.member cx m) i j) :
    ¬ rd.ArrowAt i := by
  rintro ⟨hk, hk', hline⟩
  have hstatic : ∀ {b i₁}, rd.StaticAt b i i₁ → i₁ = i := by
    rintro b i₁ (⟨hread, _⟩ | _)
    · cases hk.symm.trans hread.1
    · rfl
  have hkey : ∀ {key m i₁ i₂}, rd.MethodStartAt m i i₁ → Derives rd H (.key cx key) i₁ i₂ →
      i₂ = rd.past i := by
    intro key m i₁ i₂ hstart hkey
    have hword : ∀ {w}, rd.ReadsWord w i i₁ → i₂ = rd.past i := by
      intro w hread
      have hopens := hkey.opens
      rw [← hread.1.2.1, Phrase.opens, hk'] at hopens
      cases hopens
    cases hstart with
    | get _ hread | set _ hread => exact hword hread
    | async _ hread => cases hk.symm.trans hread.1
    | named _ hstar | plain _ _ hstar =>
      cases hstar with
      | yes hread => cases hk.symm.trans hread.1
      | no =>
        cases hkey with
        | keyName _ _ htake => exact htake.1.symm
        | keyString hstring => cases hk.symm.trans hstring.1
        | keyNumber hread | keyComputed hread => cases hk.symm.trans hread.1
  cases h with
  | method hs hstart hname hcallable =>
    obtain rfl := hstatic hs
    obtain rfl := hkey hstart hname
    cases hk'.symm.trans (of_decide_eq_true hcallable.opens)
  | field hs hstart hname _ hvalue hclose =>
    obtain rfl := hstatic hs
    obtain rfl := hkey hstart hname
    cases hvalue with
    | value hread => cases hk'.symm.trans hread.1
    | noValue =>
      cases hclose with
      | mark hread => cases hk'.symm.trans hread.1
      | brace hend | input hend => cases hk'.symm.trans hend
      | line _ hbreak => cases hbreak.symm.trans hline

theorem Derives.not_arrowAt_of_members {ms : List ClassMember}
    (h : Derives rd H (.members cx ms) i j) : ¬ rd.ArrowAt i := by
  cases h with
  | noMembers hread | skipMember hread => exact fun harrow => Stream.not_arrowAt hread.1 nofun harrow
  | moreMembers hm => exact hm.not_arrowAt_of_member

theorem Derives.tamed {ph : Phrase} (h : Derives ts.placed (Guarded ts) ph i j) [ts.Ended] :
    Tamed ts ph i j := by
  induction h with
  | value hread _ hlevel hends ih =>
    exact fun hj => .value hread ih hlevel (hends.halts hj)
  | exprStmt hopens _ hstops hclose hsp ih =>
    exact fun hj => .exprStmt hopens ih (hstops.mono fun _ h => h.halts (hclose.arrowed hj)) hclose
      hsp
  | throw hread hline _ hstops hclose hsp ih =>
    exact fun hj => .throw hread hline ih (hstops.mono fun _ h => h.halts (hclose.arrowed hj)) hclose
      hsp
  | ret hread hline _ hstops hclose hsp ih =>
    exact fun hj => .ret hread hline ih (hstops.mono fun _ h => h.halts (hclose.arrowed hj)) hclose
      hsp
  | exportedValue hf hc ha _ hlevel hends hclose ih =>
    exact fun hj => .exportedValue hf hc ha ih hlevel (hends.halts (hclose.arrowed hj)) hclose
  | vars hread hkind _ hclose hsp ih =>
    exact fun hj => .vars hread hkind (ih (hclose.arrowed hj)) hclose hsp
  | field hs hstart _ hparen _ hclose hsp ihkey ih =>
    exact fun hj => .field hs hstart ihkey hparen (ih (hclose.arrowed hj)) hclose hsp
  | moreStmts hstop _ _ ihst ih =>
    refine fun hj => .moreStmts hstop (ihst fun harrow => ?_) (ih hj)
    cases ih hj with
    | noStmts => exact hj harrow
    | moreStmts _ hst => exact hst.arrowed_of_stmt harrow
  | moreMembers _ hms ihm ih =>
    exact .moreMembers (ihm fun harrow => absurd harrow hms.not_arrowAt_of_members) ih
  | block hopen _ hclose ih =>
    exact .block hopen (ih (Stream.not_arrowAt hclose.1 nofun)) hclose
  | testCase hread _ hcolon hbody hsp ihe ih =>
    refine .testCase hread ihe hcolon (ih fun harrow => ?_) hsp
    have hend := hbody.stmts_end
    rw [show ts.placed.kindAt _ = _ from harrow.1] at hend
    exact absurd hend (by decide)
  | defaultCase hread hcolon hbody hsp ih =>
    refine .defaultCase hread hcolon (ih fun harrow => ?_) hsp
    have hend := hbody.stmts_end
    rw [show ts.placed.kindAt _ = _ from harrow.1] at hend
    exact absurd hend (by decide)
  | moreDecls _ hcomma _ ihd ih =>
    exact fun hj => .moreDecls (ihd (Stream.not_arrowAt hcomma.1 nofun)) hcomma (ih hj)
  | ifElse hread _ _ helse _ hsp ihe ihyes ihno =>
    exact fun hj => .ifElse hread ihe (ihyes (Stream.not_arrowAt helse.1 nofun)) helse (ihno hj)
      hsp
  | doWhile hread _ hwhile _ hsemi hsp ihbody ihe =>
    exact fun _ => .doWhile hread (ihbody (Stream.not_arrowAt hwhile.1 nofun)) hwhile ihe hsemi
      hsp
  | forLoop hread hopen _ hsemi _ hsemi' _ hclose _ hsp ihinit ihtest ihupdate ihbody =>
    exact fun hj => .forLoop hread hopen (ihinit (Stream.not_arrowAt hsemi.1 nofun)) hsemi ihtest
      hsemi' ihupdate hclose (ihbody hj) hsp
  | hole hx hread _ ih => exact .hole hx hread ih
  | moreItems _ hread _ ihx ih =>
    exact .moreItems (ihx (Stream.not_arrowAt hread.1 nofun)) hread ih
  | lastItem _ hread ihx =>
    exact .lastItem (ihx (Stream.not_arrowAt hread.1 nofun)) hread
  | asyncIdent hread htext hk hsp => exact .asyncIdent hread htext hk hsp
  | templateEscapeThen h₁ h₂ h₃ h₄ h₅ _ _ ihe ih =>
    exact .templateEscapeThen h₁ h₂ h₃ h₄ h₅ ihe ih
  | templateThen h₁ h₂ h₃ _ _ ihe ih => exact .templateThen h₁ h₂ h₃ ihe ih
  | templatePlain h₁ h₂ h₃ h₄ _ ih => exact .templatePlain h₁ h₂ h₃ h₄ ih
  | asyncFunc hasync hread _ hsp ih => exact .asyncFunc hasync hread ih hsp
  | _ =>
    simp only [Tamed, Phrase.openEnd] at *
    try intro hj
    constructor <;> solve_by_elim

end

end Grammar
end ScriptBundler
