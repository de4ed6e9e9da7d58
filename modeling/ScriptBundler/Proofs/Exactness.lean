import ScriptBundler.Proofs.ProgramCompleteness
import ScriptBundler.Proofs.Remembering

/-!
# Exactly what is spelled is read

Soundness and completeness need each other.  What is read in front of `name =>`
is only right if no arrow function could have been read there, and that one
could have been read is known from completeness.  Both are shown together, for
one more call at a time.  In the end a program is read exactly if its tokens
spell it.
-/

namespace ScriptBundler

variable {rd : Grammar.Reading} {j : Nat} {source : String} {p : Program}

namespace Grammar

open Grammar.Parser

/-! # Asynchronous functions

What can be read in a function can be read in an asynchronous one. -/

def Context.awaiting (cx : Context) : Context :=
  { cx with inAsync := true }

/-- The same phrase inside of an asynchronous function. -/
def Phrase.awaiting : Phrase → Phrase
  | .expr cx e => .expr cx.awaiting e
  | .others cx es => .others cx.awaiting es
  | .items cx c xs => .items cx.awaiting c xs
  | .item cx c x => .item cx.awaiting c x
  | .key cx k => .key cx.awaiting k
  | .binding cx b => .binding cx.awaiting b
  | .value cx v => .value cx.awaiting v
  | .template cx raw => .template cx.awaiting raw
  | .templateRest cx => .templateRest cx.awaiting
  | .substitution cx => .substitution cx.awaiting
  | .callable cx params body => .callable cx.awaiting params body
  | .classRest cx name e ms => .classRest cx.awaiting name e ms
  | .parent cx e => .parent cx.awaiting e
  | .members cx ms => .members cx.awaiting ms
  | .member cx m => .member cx.awaiting m
  | .block cx body => .block cx.awaiting body
  | .stmts cx stop body => .stmts cx.awaiting stop body
  | .stmt cx s => .stmt cx.awaiting s
  | .condition cx e => .condition cx.awaiting e
  | .optional cx e => .optional cx.awaiting e
  | .decls cx ds => .decls cx.awaiting ds
  | .decl cx d => .decl cx.awaiting d
  | .forLeft cx left => .forLeft cx.awaiting left
  | .forInit cx init => .forInit cx.awaiting init
  | .cases cx cs => .cases cx.awaiting cs
  | .case cx c => .case cx.awaiting c
  | .handler cx param body => .handler cx.awaiting param body
  | .exported cx e => .exported cx.awaiting e
  | ph => ph

theorem Derives.awaiting {H : Ending} {ph : Phrase} {i j : Nat} (h : Derives rd H ph i j) :
    Derives rd H ph.awaiting i j := by
  induction h with
  | await hread _ _ hlevel hsp ih => exact .await hread rfl ih hlevel hsp
  | asyncIdent hread htext hk hsp => exact .asyncIdent hread htext hk hsp
  | hole hx hread _ ih => exact .hole hx hread ih
  | moreItems _ hread _ ihx ih => exact .moreItems ihx hread ih
  | lastItem _ hread ih => exact .lastItem ih hread
  | templateEscapeThen h₁ h₂ h₃ h₄ h₅ _ _ ihe ih =>
    exact .templateEscapeThen h₁ h₂ h₃ h₄ h₅ ihe ih
  | templateThen h₁ h₂ h₃ _ _ ihe ih => exact .templateThen h₁ h₂ h₃ ihe ih
  | templatePlain h₁ h₂ h₃ h₄ _ ih => exact .templatePlain h₁ h₂ h₃ h₄ ih
  | asyncFunc hasync hread hrest hsp => exact .asyncFunc hasync hread hrest hsp
  | moreMembers _ _ ihm ih => exact .moreMembers ihm ih
  | _ => constructor <;> assumption

theorem Reading.spans_between (ts : Reading) (i j : Nat) :
    ts.Spans i j ⟨(ts.nextAt i).span.start,
      max (ts.token (j - 1)).span.stop (ts.nextAt i).span.start⟩ :=
  ⟨rfl, fun _ => rfl⟩

section
variable {ts : Reading} [ts.Ended] {cx : Context} {i d : Nat} {r : Rules}

theorem Arrowed.async (h : Arrowed ts cx.noIn j)
    (hasync : ts.placed.Reads (.keyword .kwAsync) i j) :
    ∃ e j', Spells ts.placed (.expr cx e) i j' ∧ Level.assignment ≤ e.level ∧
      Ends ts cx.noIn j' e ∧ j < j' := by
  obtain ⟨⟨hk, _⟩, cx', e, j', hnoIn, harrow, he, hends⟩ := h
  have hlt := he.lt rfl
  have hspans := ts.spans_between i j'
  have hhead : ∀ {isAsync params m}, Spells ts.placed (.arrowHead isAsync params) j m →
      isAsync = false ∧ Spells ts.placed (.arrowHead true params) i m := by
    intro isAsync params m hhead
    cases hhead with
    | arrowName hmay hword hline hmark hsp hsp' =>
      cases hmay with
      | yes hread => cases hk.symm.trans hread.1
      | no => exact ⟨rfl, .arrowName (.yes hasync) hword hline hmark hsp hsp'⟩
    | arrowParams hmay hopen =>
      cases hmay with
      | yes hread => cases hk.symm.trans hread.1
      | no => cases hk.symm.trans hopen.1
  cases he with
  | @arrow _ _ _ params body _ _ _ hparams hbrace hbody hlevel =>
    obtain ⟨rfl, hasyncParams⟩ := hhead hparams
    rw [hnoIn] at hbody
    exact ⟨.arrow _ true params body, j', .arrow hasyncParams hbrace hbody.awaiting hlevel hspans,
      Nat.le_refl _, ⟨hends.toQuiet, hends.halts⟩, hlt⟩
  | @arrowBlock _ _ _ params body _ _ _ hparams hbody =>
    obtain ⟨rfl, hasyncParams⟩ := hhead hparams
    exact ⟨.arrowBlock _ true params body, j', .arrowBlock hasyncParams hbody.awaiting hspans,
      Nat.le_refl _, ⟨hends.toQuiet, hends.halts⟩, hlt⟩
  | _ => cases harrow

/-- What is read as an assignment does not end in an `async` in front of an arrow
function: the arrow function would have been read instead. -/
theorem assignment_guarded (hts : ts.remembers = false)
    (hsound : ∀ rd : Reading, rd.toStream = ts → Sound rd (Guarded rd) d r)
    (hr : Complete ts d r) : Assigns ts (Guarded ts) d r := by
  intro i cx hd
  refine (assignment_sound (hsound ts rfl) hd).sure ?_
  rintro e j hsure ⟨he, hlevel, hstops, hvalue⟩
  refine ⟨he, hlevel, hstops, fun hname hlast harrowed => ?_⟩
  cases he with
  | ident hword =>
    rw [← hword.1.2.1] at hlast
    cases hword.1.1.symm.trans hlast
  | asyncIdent hread =>
    obtain ⟨e', j', he', hlevel', hends', hlt⟩ := harrowed.async hread
    have hfinds : Gives ts.placed (assignment r cx) i (Finds Expr.bare e' j') :=
      assignment_finds hts (hsound ts.placed rfl) hr he' hlevel' hends' .refl hd
    have hpos : j = j' := (hsure hfinds).1
    omega
  | arrow | assign | assignPattern | delegate | yieldValue | conditional =>
    exact (hvalue _ rfl).2 hname hlast harrowed
  | _ => cases hname

theorem rules_exact {ts : Stream} [ts.Ended] (hts : ts.remembers = false) (d : Nat) :
    (∀ rd : Reading, rd = ts → Sound rd (Guarded rd) d (rules d)) ∧
      Complete ts d (rules d) := by
  induction d with
  | zero =>
    refine ⟨fun rd hrd => .zero fun h => h.1, ?_⟩
    constructor <;> (intros; subst_vars; exact .beyond (by assumption))
  | succ d ih =>
    obtain ⟨hsound, hcomplete⟩ := ih
    refine ⟨?_, .produce hts hsound hcomplete⟩
    rintro rd rfl
    exact (hsound rd rfl).produce (assignment_guarded hts hsound hcomplete)

theorem program_spells (hts : ts.remembers = false) (hd : ts.tokens.size ≤ d) :
    Outcome Excused (fun body => ∃ j, Spells ts.placed (.stmts .top [] body) 0 j ∧
      ts.kindAt j = .endOfInput) (program (rules d) ts .start) := by
  refine (program_sound ((rules_exact hts d).1 ts rfl) hd).mono ?_
  rintro body ⟨j, hbody, hend⟩
  exact ⟨j, hbody.tamed (Stream.not_arrowAt hend nofun), hend⟩

end

theorem program_finds [rd.Ended] {body : List Stmt} {d j : Nat} (hts : rd.remembers = false)
    (hd : rd.tokens.size ≤ d) (h : Spells rd (.stmts .top [] body) 0 j)
    (hend : rd.kindAt j = .endOfInput) :
    Outcome (fun _ => False) (fun body' => Stmt.listBare body' = Stmt.listBare body)
      (program (rules d) rd .start) :=
  (program_runs (statementsUntil_finds (rules_exact hts d).2 h (by omega))
    fun _ _ h hno => hno (h.1 ▸ hend)).mono fun _ ⟨_, h, _⟩ => h.2

end Grammar

theorem exists_ok_of_any {ε α : Type} {x : Except ε α} {check : α → Bool}
    (h : x.toOption.any check = true) : ∃ a, x = .ok a ∧ check a = true := by
  cases x with
  | error => cases h
  | ok a => exact ⟨a, rfl, h⟩

namespace Program

open Grammar

/-- The tokens of a text, read without memory of what has failed. -/
abbrev stream (source : String) : Stream :=
  ⟨Token.lex source, false⟩

theorem back?_lex (source : String) :
    (Token.lex source).back?.map Token.kind = some .endOfInput := by
  unfold Token.lex
  rw [Array.back?_push]
  rfl

instance : (stream source).Ended :=
  ended_of_back? (back?_lex source)

theorem ofSource_eq (source : String) :
    ofSource source = parseWithin ((Token.lex source).size + 1) (stream source) :=
  parseWithin_remembering (back?_lex source) (Nat.le_succ _)

/-- A text that is read as a program spells it. -/
theorem spells_of_ofSource (h : ofSource source = .ok p) :
    ∃ j, Spells (stream source).placed (.stmts .top [] p) 0 j ∧
      (stream source).kindAt j = .endOfInput := by
  have hspells := @program_spells (stream source).reading _ ((Token.lex source).size + 1) rfl
    (Nat.le_succ _)
  rw [ofSource_eq, parseWithin] at h
  split at h
  · rename_i body s hrun
    cases h
    rwa [hrun] at hspells
  · cases h
  · cases h

/-- A text that spells a program is read as it, whatever else is asked of the
reading. -/
theorem ofSource_of_derives (hrd : rd.toStream = stream source)
    (h : Spells rd (.stmts .top [] p) 0 j) (hend : rd.kindAt j = .endOfInput) :
    ∃ q, ofSource source = .ok q ∧ Stmt.listBare q = Stmt.listBare p := by
  have : rd.Ended := hrd ▸ inferInstance
  have hfinds := @program_finds rd _ p ((Token.lex source).size + 1) j (by rw [hrd])
    (by rw [hrd]; exact Nat.le_succ _) h hend
  rw [ofSource_eq, parseWithin]
  rw [hrd] at hfinds
  split
  · rename_i body s hrun
    rw [hrun] at hfinds
    exact ⟨body, rfl, hfinds⟩
  · rename_i hrun
    rw [hrun] at hfinds
    exact hfinds.elim
  · rename_i hrun
    rw [hrun] at hfinds
    exact hfinds.elim

end Program
end ScriptBundler
