import ScriptBundler.Proofs.Agreement
import ScriptBundler.Proofs.StatementSoundness

/-!
# Remembered speculations change nothing

A speculation that has failed once is not tried again at the same token.  The
second trial would start from another state: with other white space behind it,
another last token, and more failures known.  None of this matters.  The trial
would fail again at the same token, and that token is no further than the
furthest one kept, because the first trial has reported it already.

The argument compares runs that remember nothing with each other first: runs
of different depths, from states that have the next token in common.  Then the
runs that remember are compared with those that do not.
-/

namespace ScriptBundler
namespace Grammar

open Grammar.Parser

variable {a b : Option Token} {α : Type} {ts : Stream} {rule : Speculation} {cx : Context}
  {d depth : Nat} {k : Token.Kind} {trial : Trial}

/-- The further of two tokens that may be kept, the first one if they start at
the same offset. -/
def further : Option Token → Option Token → Option Token
  | none, b => b
  | some a, none => some a
  | some a, some b => if a.span.start < b.span.start then some b else some a

theorem further_none (a : Option Token) : further a none = a := by
  cases a <;> rfl

theorem further_assoc (a b c : Option Token) :
    further (further a b) c = further a (further b c) := by
  cases a <;> cases b <;> cases c <;> grind -linarith [further]

theorem Progress.furthest_record (s : Progress) (t : Token) :
    (s.record t).furthest = further s.furthest (some t) := by
  unfold Progress.record
  split
  · rename_i h
    rw [h]
    rfl
  · rename_i best h
    rw [h]
    simp only [further]
    split
    · rfl
    · exact h

theorem Progress.failed_record (s : Progress) (t : Token) : (s.record t).failed = s.failed := by
  unfold Progress.record
  split
  · rfl
  · split <;> rfl

def Within (a b : Option Token) : Prop :=
  further b a = b

theorem Within.refl (a : Option Token) : Within a a := by
  cases a with
  | none => rfl
  | some a => exact if_neg (Nat.lt_irrefl _)

theorem Within.trans {a b c : Option Token} (hab : Within a b) (hbc : Within b c) : Within a c := by
  unfold Within at *
  rw [← hbc, further_assoc, hab]

theorem within_further_left (a b : Option Token) : Within a (further a b) := by
  unfold Within
  cases a <;> cases b <;> grind -linarith [further]

theorem within_further_right (a b : Option Token) : Within b (further a b) := by
  unfold Within
  cases a <;> cases b <;> grind -linarith [further]

/-!
# Runs that remember nothing

Two runs without memory that have met the same failures go the same way.
-/

variable {tokens : Array Token}

/-- Two runs that remember nothing and have met the same failures since they
started, with `a` and `b` as the furthest tokens then. -/
def sameFailures (tokens : Array Token) (a b : Option Token) :
    Coupling ⟨tokens, false⟩ ⟨tokens, false⟩ where
  tokens := rfl
  Kept s s' := ∃ met, s.furthest = further a met ∧ s'.furthest = further b met
  moved h _ _ _ _ := h
  recorded := by
    rintro s s' ⟨met, h, h'⟩ t
    refine ⟨further met (some t), ?_, ?_⟩
    · rw [Progress.furthest_record, h, further_assoc]
    · rw [Progress.furthest_record, h', further_assoc]

theorem sameFailures_start (tokens : Array Token) (s s' : Progress) :
    (sameFailures tokens s.furthest s'.furthest).Kept s s' :=
  ⟨none, (further_none _).symm, (further_none _).symm⟩

theorem eq_of_attempt_none {p : Parser α} {s s₁ : Progress} (h : attempt p ts s = .ok none s₁) :
    ∃ t s₂, p ts s = .error (.unexpected t) s₂ ∧
      s₁ = { s₂.record t with pos := s.pos, lastEnd := s.lastEnd } := by
  unfold attempt at h
  cases hp : p ts s with
  | ok a s₂ =>
    rw [hp] at h
    cases h
  | error e s₂ =>
    rw [hp] at h
    cases e with
    | exhausted => cases h
    | unexpected t =>
      cases h
      exact ⟨t, s₂, rfl, rfl⟩

/-- Without memory a speculation is a trial. -/
theorem speculate_forgetful {p : Parser α} (s : Progress) : speculate rule cx p ⟨tokens, false⟩ s =
      match attempt p ⟨tokens, false⟩ s with
      | .ok none s' =>
        .ok none { s' with failed := ⟨(Stream.skip ⟨tokens, false⟩ s.pos).1, rule, cx⟩ :: s'.failed }
      | result => result := rfl

theorem speculate_agrees {p p' : Parser α} (h : Agrees (sameFailures tokens a b) p p') :
    Agrees (sameFailures tokens a b) (speculate rule cx p) (speculate rule cx p') := by
  intro s s' hjoined
  rw [speculate_forgetful, speculate_forgetful]
  rcases (h.attempt s s' hjoined).cases with
    ⟨_, hrun⟩ | ⟨o, s₁, s₁', hrun, hrun', hjoined'⟩ | ⟨t, s₁, s₁', hrun, hrun', hkept⟩
  · rw [hrun]
    trivial
  · rw [hrun, hrun']
    cases o with
    | none => exact ⟨rfl, hjoined'.pos, hjoined'.lastEnd, hjoined'.kept⟩
    | some x => exact ⟨rfl, hjoined'⟩
  · rw [hrun, hrun']
    exact ⟨rfl, hkept⟩

/-- A run that does not run out of calls goes the same way when it has more of
them. -/
theorem rules_agree (tokens : Array Token) {d d' : Nat} (hd : d ≤ d') :
    AkinRules (sameFailures tokens a b) (rules d) (rules d') := by
  induction d generalizing d' with
  | zero => exact ⟨fun _ _ => Akin.exhausted.agrees⟩
  | succ d ih =>
    obtain ⟨d', rfl⟩ : ∃ n, d' = n + 1 := ⟨d' - 1, by omega⟩
    have hrules := @ih d' (by omega)
    exact .produce ⟨fun _ => speculate_agrees Akin.agrees, fun _ => speculate_agrees Akin.agrees⟩

/-!
# Runs from states with the same next token

White space in front of the next token makes no difference to a run.
-/

section
variable {ts' : Stream} {C : Coupling ts ts'} {r r' : Rules}

structure Coupling.Facing (C : Coupling ts ts') (s s' : Progress) : Prop where
  index : (ts.skip s'.pos).1 = (ts.skip s.pos).1
  kept : C.Kept s s'

/-- Parsers that answer alike from states with the same next token, which they
have read when they answer with a value. -/
def Faces {α : Type} (C : Coupling ts ts') (p p' : Parser α) : Prop :=
  ∀ s s', C.Facing s s' → Alike C (p ts s) (p' ts' s')

namespace Faces

variable {β : Type} {p p' q q' : Parser α}

theorem bind {f f' : α → Parser β} (hp : Faces C p p') (hf : ∀ a, Agrees C (f a) (f' a)) :
    Faces C (p >>= f) (p' >>= f') :=
  fun s s' h => (hp s s' h).bind hf

theorem ite {c : Prop} [Decidable c] (hp : c → Faces C p p') (hq : ¬ c → Faces C q q') :
    Faces C (if c then p else q) (if c then p' else q') := by
  by_cases hc : c
  · rw [if_pos hc, if_pos hc]
    exact hp hc
  · rw [if_neg hc, if_neg hc]
    exact hq hc

theorem nextAt_eq {s s' : Progress} (h : C.Facing s s') :
    ts'.token (ts'.skip s'.pos).1 = ts.token (ts.skip s.pos).1 := by
  rw [Stream.token_congr C.tokens, Stream.skip_congr C.tokens, h.index]

theorem peek {f f' : Token → Parser β} (hf : ∀ t, Faces C (f t) (f' t)) :
    Faces C (Parser.peek >>= f) (Parser.peek >>= f') := by
  intro s s' h
  change Alike C (f (ts.token (ts.skip s.pos).1) ts s) (f' (ts'.token (ts'.skip s'.pos).1) ts' s')
  rw [nextAt_eq h]
  exact hf _ s s' h

theorem here {f f' : Nat → Parser β} (hf : ∀ n, Faces C (f n) (f' n)) :
    Faces C (Parser.here >>= f) (Parser.here >>= f') :=
  @peek ts ts' C β (fun t => f t.span.start) (fun t => f' t.span.start) fun _ => hf _

theorem peekKind {f f' : Token.Kind → Parser β} (hf : ∀ k, Faces C (f k) (f' k)) :
    Faces C (Parser.peekKind >>= f) (Parser.peekKind >>= f') :=
  @peek ts ts' C β (fun t => f t.kind) (fun t => f' t.kind) fun _ => hf _

theorem isAt {f f' : Bool → Parser β} (hf : ∀ b, Faces C (f b) (f' b)) :
    Faces C (Parser.isAt k >>= f) (Parser.isAt k >>= f') :=
  @peek ts ts' C β (fun t => f (decide (t.kind = k))) (fun t => f' (decide (t.kind = k)))
    fun _ => hf _

theorem unexpected : Faces C (Parser.unexpected (α := α)) Parser.unexpected :=
  peek fun _ _ _ h => ⟨rfl, h.kept⟩

theorem advance {s s' : Progress} (h : C.Facing s s')
    (hk : (ts.token (ts.skip s.pos).1).kind ≠ .endOfInput) :
    Alike C (Parser.advance ts s) (Parser.advance ts' s') := by
  unfold Parser.advance
  dsimp only
  rw [nextAt_eq h, if_neg hk, if_neg hk, Stream.skip_congr C.tokens, h.index]
  exact ⟨rfl, rfl, rfl, C.moved h.kept _ _ _ _⟩

theorem expect (hk : k ≠ .endOfInput) : Faces C (Parser.expect k) (Parser.expect k) := by
  intro s s' h
  change Alike C ((if decide ((ts.token (ts.skip s.pos).1).kind = k) then Parser.advance
    else Parser.unexpected) ts s) ((if decide ((ts'.token (ts'.skip s'.pos).1).kind = k)
    then Parser.advance else Parser.unexpected) ts' s')
  rw [nextAt_eq h]
  by_cases hkind : (ts.token (ts.skip s.pos).1).kind = k
  · rw [decide_eq_true hkind]
    exact advance h (hkind ▸ hk)
  · rw [decide_eq_false hkind]
    exact unexpected s s' h

theorem expectMark (mark : Punctuator) :
    Faces C (Parser.expectMark mark) (Parser.expectMark mark) :=
  bind (expect nofun) fun _ => Akin.agrees

theorem identifier : Faces C Parser.identifier Parser.identifier :=
  bind (expect nofun) fun _ => Akin.agrees

theorem variableName : Faces C Parser.variableName Parser.variableName := by
  intro s s' h
  change Alike C ((if namesVariable (ts.token (ts.skip s.pos).1).kind then
      Parser.advance >>= fun t => Pure.pure t.text else Parser.unexpected) ts s)
    ((if namesVariable (ts'.token (ts'.skip s'.pos).1).kind then
      Parser.advance >>= fun t => Pure.pure t.text else Parser.unexpected) ts' s')
  rw [nextAt_eq h]
  by_cases hname : namesVariable (ts.token (ts.skip s.pos).1).kind = true
  · rw [if_pos hname]
    refine (advance h fun hk => ?_).bind fun _ => Akin.agrees
    rw [hk] at hname
    cases hname
  · rw [if_neg hname]
    exact unexpected s s' h

theorem eat {f f' : Bool → Parser β} (hk : k ≠ .endOfInput) (hyes : Agrees C (f true) (f' true))
    (hno : Faces C (f false) (f' false)) : Faces C (Parser.eat k >>= f) (Parser.eat k >>= f') := by
  intro s s' h
  change Alike C (((if decide ((ts.token (ts.skip s.pos).1).kind = k) then
      Parser.advance >>= fun _ => Pure.pure true else Pure.pure false) >>= f) ts s)
    (((if decide ((ts'.token (ts'.skip s'.pos).1).kind = k) then
      Parser.advance >>= fun _ => Pure.pure true else Pure.pure false) >>= f') ts' s')
  rw [nextAt_eq h]
  by_cases hkind : (ts.token (ts.skip s.pos).1).kind = k
  · rw [decide_eq_true hkind, if_pos rfl]
    simp only [bind_assoc, pure_bind]
    exact (advance h (hkind ▸ hk)).bind fun _ => hyes
  · rw [decide_eq_false hkind]
    exact hno s s' h

end Faces

variable [AkinRules C r r']

set_option synthInstance.maxSize 1000 in
theorem arrowFunction_faces : Faces C (arrowFunction r cx) (arrowFunction r' cx) := by
  unfold arrowFunction
  dsimp only
  refine .here fun start => .eat nofun Akin.agrees ?_
  refine .bind (.isAt fun _ => .ite (fun _ => ?_) fun _ => ?_) fun _ => Akin.agrees
  · exact .here fun _ => .bind .identifier fun _ => Akin.agrees
  · exact .bind (.expectMark _) fun _ => Akin.agrees

theorem pattern_faces : Faces C (pattern r cx) (pattern r' cx) := by
  refine .here fun start => .peekKind fun k => ?_
  split
  · exact .bind .variableName fun _ => Akin.agrees
  · exact .bind .variableName fun _ => Akin.agrees
  · exact .bind (.expectMark _) fun _ => Akin.agrees
  · exact .bind (.expectMark _) fun _ => Akin.agrees
  · exact .unexpected

theorem patternAssignment_faces : Faces C (patternAssignment r cx) (patternAssignment r' cx) :=
  .here fun _ => .bind pattern_faces fun _ => Akin.agrees

end

/-!
# Trials that are of no use

A trial that has failed fails again at the same token, and reports nothing that is
further.
-/

def Trial.parser (trial : Trial) (r : Rules) : Parser Expr :=
  match trial.rule with
  | .arrow => arrowFunction r trial.context
  | .patternAssignment => patternAssignment r trial.context

theorem Trial.parser_faces {ts ts' : Stream} {C : Coupling ts ts'} {r r' : Rules} (trial : Trial)
    (_ : AkinRules C r r') : Faces C (trial.parser r) (trial.parser r') := by
  obtain ⟨index, rule, cx⟩ := trial
  cases rule with
  | arrow => exact arrowFunction_faces
  | patternAssignment => exact patternAssignment_faces

/-- Wherever the next token is that of the trial, the trial fails, and it
reports nothing further than `reached`. -/
def Futile (tokens : Array Token) (depth : Nat) (trial : Trial) (reached : Option Token) : Prop :=
  ∀ s : Progress, (Stream.skip ⟨tokens, false⟩ s.pos).1 = trial.index →
    ∃ t s₁, trial.parser (rules depth) ⟨tokens, false⟩ s = .error (.unexpected t) s₁ ∧
      (Within reached s.furthest → (s₁.record t).furthest = s.furthest)

theorem Futile.mono (h : Futile tokens depth trial a) (hab : Within a b) :
    Futile tokens depth trial b := by
  intro s hs
  obtain ⟨t, s₁, hrun, hreached⟩ := h s hs
  exact ⟨t, s₁, hrun, fun hb => hreached (hab.trans hb)⟩

/-- A trial that failed once is of no use again. -/
theorem futile_of_failed {s s₁ : Progress} {t : Token} (hd : d ≤ depth)
    (hindex : (Stream.skip ⟨tokens, false⟩ s.pos).1 = trial.index)
    (hrun : trial.parser (rules d) ⟨tokens, false⟩ s = .error (.unexpected t) s₁) :
    Futile tokens depth trial (s₁.record t).furthest := by
  intro u hu
  have halike := trial.parser_faces (rules_agree tokens hd) s u
    ⟨hu.trans hindex.symm, sameFailures_start tokens s u⟩
  rcases halike.cases with ⟨_, h⟩ | ⟨_, _, _, h, _⟩ | ⟨t', s₂, u₁, h, hrun', met, hs₂, hu₁⟩
  · rw [hrun] at h
    cases h
  · rw [hrun] at h
    cases h
  · rw [hrun] at h
    cases h
    refine ⟨t, u₁, hrun', fun hreached => ?_⟩
    rw [Progress.furthest_record, hs₂, further_assoc] at hreached
    rw [Progress.furthest_record, hu₁, further_assoc]
    exact (within_further_right _ _).trans hreached

theorem Futile.run {s : Progress} {reached : Option Token} (h : Futile tokens depth trial reached)
    (hd : d ≤ depth) (hindex : (Stream.skip ⟨tokens, false⟩ s.pos).1 = trial.index)
    (hreached : Within reached s.furthest) :
    (∃ s₁, trial.parser (rules d) ⟨tokens, false⟩ s = .error .exhausted s₁) ∨
    ∃ t s₁, trial.parser (rules d) ⟨tokens, false⟩ s = .error (.unexpected t) s₁ ∧
      (s₁.record t).furthest = s.furthest := by
  obtain ⟨t, s₁, hrun, hkeeps⟩ := h s hindex
  have halike := trial.parser_faces (rules_agree tokens hd) s s ⟨rfl, sameFailures_start tokens s s⟩
  rcases halike.cases with hexhausted | ⟨_, _, _, _, h, _⟩ | ⟨t', s₂, s₃, hrun', h, met, hs₂, hs₃⟩
  · exact .inl hexhausted
  · rw [hrun] at h
    cases h
  · rw [hrun] at h
    cases h
    refine .inr ⟨t, s₂, hrun', ?_⟩
    rw [← hkeeps hreached, Progress.furthest_record, Progress.furthest_record, hs₃, hs₂]

/-!
# Runs that remember

Only trials of no use are remembered, so nothing changes when they are left out.
-/

/-- A run that remembers beside one that does not: both know the same
failures, and only trials of no use are remembered. -/
def remembering (tokens : Array Token) (depth : Nat) :
    Coupling ⟨tokens, false⟩ ⟨tokens, true⟩ where
  tokens := rfl
  Kept s s' := s'.furthest = s.furthest ∧
    ∀ trial ∈ s'.failed, Futile tokens depth trial s'.furthest
  moved h _ _ _ _ := h
  recorded := by
    rintro s s' ⟨hfurthest, hfutile⟩ t
    refine ⟨?_, fun trial htrial => ?_⟩
    · rw [Progress.furthest_record, Progress.furthest_record, hfurthest]
    · rw [Progress.failed_record] at htrial
      rw [Progress.furthest_record]
      exact (hfutile trial htrial).mono (within_further_left _ _)

theorem speculate_remembering (hd : d ≤ depth) {p : Parser Expr}
    (hp : ∀ index, p = Trial.parser ⟨index, rule, cx⟩ (rules d))
    (h : Agrees (remembering tokens depth) p p) :
    Agrees (remembering tokens depth) (speculate rule cx p) (speculate rule cx p) := by
  intro s s' hjoined
  let trial : Trial := ⟨(Stream.skip ⟨tokens, false⟩ s.pos).1, rule, cx⟩
  have htrial : (⟨(Stream.skip ⟨tokens, true⟩ s'.pos).1, rule, cx⟩ : Trial) = trial := by
    rw [hjoined.pos, Stream.skip_congr (remembering tokens depth).tokens]
  rw [speculate_forgetful]
  unfold speculate
  dsimp only
  rw [htrial, Bool.true_and]
  obtain ⟨hfurthest, hfutile⟩ := hjoined.kept
  by_cases hknown : s'.failed.contains trial = true
  · -- The remembered failure stands for a trial that changes nothing.
    rw [if_pos hknown]
    have huseless := hfutile trial (List.contains_iff_mem.mp hknown)
    rcases huseless.run hd rfl (hfurthest ▸ .refl _) with ⟨s₁, hrun⟩ | ⟨t, s₁, hrun, hkeeps⟩
    · rw [← hp] at hrun
      unfold attempt
      rw [hrun]
      trivial
    · rw [← hp] at hrun
      unfold attempt
      rw [hrun]
      exact ⟨rfl, hjoined.pos, hjoined.lastEnd, hfurthest.trans hkeeps.symm, hfutile⟩
  · rw [if_neg hknown]
    rcases (h.attempt s s' hjoined).cases with
      ⟨_, hrun⟩ | ⟨o, s₁, s₁', hrun, hrun', hjoined'⟩ | ⟨t, s₁, s₁', hrun, hrun', hkept⟩
    · rw [hrun]
      trivial
    · rw [hrun, hrun']
      obtain ⟨hpos, hlast, hfurthest', hfutile'⟩ := hjoined'
      cases o with
      | some e => exact ⟨rfl, hpos, hlast, hfurthest', hfutile'⟩
      | none =>
        -- What is remembered now has just failed without memory too.
        refine ⟨rfl, hpos, hlast, hfurthest', fun known hmem => ?_⟩
        rcases List.mem_cons.mp hmem with rfl | hmem
        · obtain ⟨t, s₂, hfailed, rfl⟩ := eq_of_attempt_none hrun
          rw [hp trial.index] at hfailed
          change Futile tokens depth trial s₁'.furthest
          rw [hfurthest']
          exact futile_of_failed hd rfl hfailed
        · exact hfutile' known hmem
    · rw [hrun, hrun']
      exact ⟨rfl, hkept⟩

theorem rules_remembering (hd : d ≤ depth) :
    AkinRules (remembering tokens depth) (rules d) (rules d) := by
  induction d with
  | zero => exact ⟨fun _ _ => Akin.exhausted.agrees⟩
  | succ d ih =>
    have hrules := ih (by omega)
    have hd' : d ≤ depth := by omega
    exact .produce ⟨fun _ => speculate_remembering hd' (fun _ => rfl) Akin.agrees,
      fun _ => speculate_remembering hd' (fun _ => rfl) Akin.agrees⟩

theorem parseWithin_eq_of_agrees {ts ts' : Stream} {C : Coupling ts ts'} {d d' : Nat}
    (_ : AkinRules C (rules d) (rules d')) (hstart : C.Joined .start .start)
    (hfurthest : ∀ s s', C.Kept s s' → s'.furthest = s.furthest)
    (hends : Outcome Excused (fun _ => True) (program (rules d) ts .start)) :
    parseWithin d' ts' = parseWithin d ts := by
  unfold parseWithin
  have hprogram : Akin C (program (rules d)) (program (rules d')) := inferInstance
  rcases (hprogram.agrees _ _ hstart).cases with
    ⟨_, hrun⟩ | ⟨body, s, s', hrun, hrun', _⟩ | ⟨t, s, s', hrun, hrun', hkept⟩
  · rw [hrun] at hends
    exact hends.elim
  · rw [hrun, hrun']
  · rw [hrun, hrun']
    dsimp only
    rw [Progress.furthest_record, Progress.furthest_record, hfurthest _ _ hkept]

theorem ended_of_back? (h : ts.tokens.back?.map Token.kind = some .endOfInput) : ts.Ended := by
  obtain ⟨t, hback, hkind⟩ := Option.map_eq_some_iff.mp h
  have hsize : 0 < ts.tokens.size := by
    rcases Nat.eq_zero_or_pos ts.tokens.size with hzero | hpos
    · rw [Array.back?_eq_getElem?, Array.getElem?_eq_none (by omega)] at hback
      cases hback
    · exact hpos
  refine ⟨hsize, ?_⟩
  unfold Stream.token
  rw [← Array.back?_eq_getElem?, hback]
  exact hkind

section
variable {d' : Nat} (hend : tokens.back?.map Token.kind = some .endOfInput)
include hend

theorem program_ends {remembers : Bool} (hd : tokens.size ≤ d) :
    Outcome Excused (fun _ => True) (program (rules d) ⟨tokens, remembers⟩ .start) := by
  have : Stream.Ended ⟨tokens, remembers⟩ := ended_of_back? hend
  have hsound : Sound (Stream.reading ⟨tokens, remembers⟩) _ d _ := rules_sound d
  exact (program_sound hsound hd).mono fun _ _ => trivial

/-- From one call for each token on, further calls are of no use. -/
theorem parseWithin_deeper (hd : tokens.size ≤ d) (hd' : d ≤ d') :
    parseWithin d' ⟨tokens, false⟩ = parseWithin d ⟨tokens, false⟩ := by
  refine parseWithin_eq_of_agrees (rules_agree tokens hd')
    ⟨rfl, rfl, sameFailures_start tokens .start .start⟩ ?_ (program_ends hend hd)
  rintro s s' ⟨met, hs, hs'⟩
  exact hs'.trans hs.symm

theorem parseWithin_remembering (hd : tokens.size ≤ d) :
    parseWithin d ⟨tokens, true⟩ = parseWithin d ⟨tokens, false⟩ :=
  parseWithin_eq_of_agrees (rules_remembering (Nat.le_refl d))
    ⟨rfl, rfl, rfl, nofun⟩ (fun _ _ hkept => hkept.1) (program_ends hend hd)

end

end Grammar

/-- Remembering failed speculations changes neither the program nor the error
that tokens give. -/
theorem Program.parse_eq_forgetful (tokens : Array Token)
    (hend : tokens.back?.map Token.kind = some .endOfInput) (depth : Nat)
    (hdepth : tokens.size ≤ depth) :
    Program.parse tokens = Grammar.parseWithin depth ⟨tokens, false⟩ := by
  rw [Program.parse, Grammar.parseWithin_remembering hend (Nat.le_succ _),
    Grammar.parseWithin_deeper hend (Nat.le_refl _) (Nat.le_succ _),
    Grammar.parseWithin_deeper hend (Nat.le_refl _) hdepth]

/-- Arrow functions that are tried, given up and tried again inside of others. -/
theorem Program.parse_eq_forgetful_nested :
    let tokens := Token.lex "((a = (b, c), d)), (e = ((f = g))) => [h] = i"
    tokens.back?.map Token.kind = some .endOfInput ∧ tokens.size ≤ 60 ∧
      Program.parse tokens = Grammar.parseWithin 60 ⟨tokens, false⟩ := by
  have hend : (Token.lex "((a = (b, c), d)), (e = ((f = g))) => [h] = i").back?.map Token.kind =
      some .endOfInput := by decide +kernel
  have hsize : (Token.lex "((a = (b, c), d)), (e = ((f = g))) => [h] = i").size ≤ 60 := by
    decide +kernel
  exact ⟨hend, hsize, Program.parse_eq_forgetful _ hend 60 hsize⟩

end ScriptBundler
