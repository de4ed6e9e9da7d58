import ScriptBundler.Proofs.Progress

/-!
# Running parsers

Rules for reasoning about parsers, one for each way to build one.  `Runs` says
what holds after a parser has run from a position on, for its values and for
its failures.  Two readings of it are used: whatever a parser answers is right
(`Meets`), and the parser does answer with a value (`Gives`).

States are described by the position alone: what they keep of failures has no
say in what a parser answers, as long as it answers.
-/

namespace ScriptBundler
namespace Grammar

open Grammar.Parser

variable {k : Token.Kind} {word : String} {mark : Punctuator} {i j : Nat}

/-- States at a position in front of the end of the input, behind the token
that was read last. -/
structure Situated (ts : Stream) (origin i : Nat) (s : Progress) : Prop where
  pos : s.pos = i
  inside : i < ts.tokens.size
  lastEnd : origin < i → s.lastEnd = (ts.token (i - 1)).span.stop

theorem situated_start {ts : Reading} [hts : ts.Ended] : Situated ts ts.origin 0 .start :=
  ⟨rfl, hts.nonempty, fun h => absurd h (Nat.not_lt_zero _)⟩

/-- No parser goes back.  Values and the positions behind them meet `Q`, and
failures meet `E`. -/
def Runs {α : Type} (ts : Reading) (E : Failure → Prop) (p : Parser α) (i : Nat)
    (Q : α → Nat → Prop) : Prop :=
  ∀ s, Situated ts ts.origin i s →
    match p ts s with
    | .ok a s' => ∃ j, i ≤ j ∧ Situated ts ts.origin j s' ∧ Q a j
    | .error e _ => E e

/-- A parser may find a token that does not fit, but it never runs out of
calls. -/
def Excused : Failure → Prop
  | .unexpected _ => True
  | .exhausted => False

/-- Whatever the parser answers meets `Q`. -/
abbrev Meets {α : Type} (ts : Reading) (p : Parser α) (i : Nat) (Q : α → Nat → Prop) : Prop :=
  Runs ts Excused p i Q

abbrev Gives {α : Type} (ts : Reading) (p : Parser α) (i : Nat) (Q : α → Nat → Prop) : Prop :=
  Runs ts (fun _ => False) p i Q

section
variable {α β γ : Type} {ts : Reading} {E : Failure → Prop} {Q Q' : α → Nat → Prop}
  {R : β → Nat → Prop} {p : Parser α}

namespace Runs

theorem of_ok {a : α} {s s' : Progress} (h : Runs ts E p i Q) (hs : Situated ts ts.origin i s)
    (hp : p ts s = .ok a s') : ∃ j, i ≤ j ∧ Situated ts ts.origin j s' ∧ Q a j := by
  have h := h s hs
  rw [hp] at h
  exact h

theorem of_error {e : Failure} {s s' : Progress} (h : Runs ts E p i Q)
    (hs : Situated ts ts.origin i s) (hp : p ts s = .error e s') : E e := by
  have h := h s hs
  rw [hp] at h
  exact h

theorem intro (hok : ∀ s a s', Situated ts ts.origin i s → p ts s = .ok a s' →
      ∃ j, i ≤ j ∧ Situated ts ts.origin j s' ∧ Q a j)
    (herror : ∀ s e s', Situated ts ts.origin i s → p ts s = .error e s' → E e) :
    Runs ts E p i Q := by
  intro s hs
  cases hp : p ts s with
  | ok a s' => exact hok s a s' hs hp
  | error e s' => exact herror s e s' hs hp

theorem pure {a : α} (h : Q a i) : Runs ts E (Pure.pure a) i Q :=
  fun _ hs => ⟨i, Nat.le_refl i, hs, h⟩

theorem beyond (h : ts.tokens.size ≤ i) : Runs ts E p i Q :=
  fun _ hs => absurd hs.inside (Nat.not_lt.mpr h)

theorem mono (h : Runs ts E p i Q') (hQ : ∀ a j, i ≤ j → Q' a j → Q a j) : Runs ts E p i Q :=
  intro (fun _ a _ hs hp =>
    have ⟨j, hle, hs', ha⟩ := h.of_ok hs hp
    ⟨j, hle, hs', hQ a j hle ha⟩) fun _ _ _ => h.of_error

theorem sure (h : Runs ts E p i Q')
    (hQ : ∀ a j, (∀ {Q}, Gives ts p i Q → Q a j) → Q' a j → Q a j) : Runs ts E p i Q := by
  refine intro (fun s a s' hs hp => ?_) fun _ _ _ => h.of_error
  obtain ⟨j, hle, hs', ha⟩ := h.of_ok hs hp
  refine ⟨j, hle, hs', hQ a j (fun hgives => ?_) ha⟩
  obtain ⟨j', _, hs'', ha'⟩ := hgives.of_ok hs hp
  rwa [← hs'.pos, hs''.pos]

theorem both (h : Gives ts p i Q) (h' : Runs ts E p i Q') (hi : i < ts.tokens.size) :
    ∃ a j, Q a j ∧ Q' a j := by
  have hs : Situated ts ts.origin i ⟨i, (ts.token (i - 1)).span.stop, none, []⟩ :=
    ⟨rfl, hi, fun _ => rfl⟩
  cases hp : p ts ⟨i, (ts.token (i - 1)).span.stop, none, []⟩ with
  | ok a s' =>
    obtain ⟨j, _, hs', ha⟩ := h.of_ok hs hp
    obtain ⟨j', _, hs'', ha'⟩ := h'.of_ok hs hp
    exact ⟨a, j, ha, by rwa [← hs'.pos, hs''.pos]⟩
  | error e s' => exact (h.of_error hs hp).elim

theorem next {x : Parser α} {f : α → Parser β} (h : Runs ts E x i Q)
    (hf : ∀ a j, i ≤ j → Q a j → Runs ts E (f a) j R) : Runs ts E (x >>= f) i R := by
  intro s hs
  cases hx : x ts s with
  | ok a s' =>
    obtain ⟨j, hle, hs', ha⟩ := h.of_ok hs hx
    have hbind : (x >>= f) ts s = f a ts s' := by
      simp only [Bind.bind, ReaderT.bind, EStateM.bind, hx]
    rw [hbind]
    cases hfa : f a ts s' with
    | ok b s'' =>
      obtain ⟨k, hle', h⟩ := (hf a j hle ha).of_ok hs' hfa
      exact ⟨k, Nat.le_trans hle hle', h⟩
    | error e s'' => exact (hf a j hle ha).of_error hs' hfa
  | error e s' =>
    have hbind : (x >>= f) ts s = .error e s' := by
      simp only [Bind.bind, ReaderT.bind, EStateM.bind, hx]
    rw [hbind]
    exact h.of_error hs hx

theorem bind {x : Parser α} {f : α → Parser β}
    (h : Runs ts E x i fun a j => Runs ts E (f a) j R) : Runs ts E (x >>= f) i R :=
  h.next fun _ _ _ hf => hf

theorem map {x : Parser α} {f : α → β} (h : Runs ts E x i fun a => R (f a)) :
    Runs ts E (f <$> x) i R :=
  h.next fun _ _ _ hf => .pure hf

theorem allow (h : Meets ts p i Q) (hE : ∀ t, E (.unexpected t)) : Runs ts E p i Q := by
  refine intro (fun _ _ _ => h.of_ok) fun s e s' hs hp => ?_
  have he := h.of_error hs hp
  cases e with
  | unexpected t => exact hE t
  | exhausted => exact he.elim

theorem yes {p q : Parser α} (h : Runs ts E p i Q) : Runs ts E (if true = true then p else q) i Q :=
  h

theorem no {p q : Parser α} (h : Runs ts E q i Q) : Runs ts E (if false = true then p else q) i Q :=
  h

theorem ite {c : Prop} [Decidable c] {p q : Parser α} (hp : c → Runs ts E p i Q)
    (hq : ¬ c → Runs ts E q i Q) : Runs ts E (if c then p else q) i Q := by
  by_cases hc : c
  · rw [if_pos hc]
    exact hp hc
  · rw [if_neg hc]
    exact hq hc

theorem unexpected : Meets ts (Parser.unexpected : Parser α) i Q :=
  fun _ _ => trivial

theorem unexpectedAt {t : Token} : Meets ts (Parser.unexpectedAt t : Parser α) i Q :=
  fun _ _ => trivial

theorem tail (h : Runs ts E (p >>= Pure.pure) i Q) : Runs ts E p i Q := by
  intro s hs
  have h := h s hs
  simp only [Bind.bind, ReaderT.bind, EStateM.bind] at h
  cases hp : p ts s with
  | ok a s' =>
    rw [hp] at h
    exact h
  | error e s' =>
    rw [hp] at h
    exact h

theorem step {x : Parser β} {f : β → Parser α} {b : β} (hle : i ≤ j)
    (hx : ∀ s, Situated ts ts.origin i s → ∃ s', x ts s = .ok b s' ∧ Situated ts ts.origin j s')
    (h : Runs ts E (f b) j Q) : Runs ts E (x >>= f) i Q := by
  refine .bind fun s hs => ?_
  obtain ⟨s', hrun, hs'⟩ := hx s hs
  rw [hrun]
  exact ⟨j, hle, hs', h⟩

theorem look {x : Parser β} {f : β → Parser α} {b : β}
    (hx : ∀ s, Situated ts ts.origin i s → x ts s = .ok b s) (h : Runs ts E (f b) i Q) :
    Runs ts E (x >>= f) i Q :=
  step (Nat.le_refl i) (fun s hs => ⟨s, hx s hs, hs⟩) h

section
variable {f : Token → Parser α}

theorem peek (h : Runs ts E (f (ts.nextAt i)) i Q) : Runs ts E (Parser.peek >>= f) i Q :=
  look (fun _ hs => hs.pos ▸ rfl) h

theorem rawPeek (h : Runs ts E (f (ts.token i)) i Q) : Runs ts E (Parser.rawPeek >>= f) i Q :=
  look (fun _ hs => hs.pos ▸ rfl) h

theorem rawPeekSecond (h : Runs ts E (f (ts.token (i + 1))) i Q) :
    Runs ts E (Parser.rawPeekSecond >>= f) i Q :=
  look (fun _ hs => hs.pos ▸ rfl) h

theorem advanceAtEnd (hk : ts.kindAt i = .endOfInput)
    (h : ∀ s, match f (ts.nextAt i) ts s with | .ok _ _ => False | .error e _ => E e) :
    Runs ts E (Parser.advance >>= f) i Q := by
  intro s hs
  obtain rfl := hs.pos
  have hrun : (Parser.advance >>= f) ts s =
      f (ts.nextAt s.pos) ts { s with pos := (ts.skip s.pos).1 } := by
    have hadvance : Parser.advance ts s =
        .ok (ts.nextAt s.pos) { s with pos := (ts.skip s.pos).1 } := if_pos hk
    simp only [Bind.bind, ReaderT.bind, EStateM.bind, hadvance]
  have h := h { s with pos := (ts.skip s.pos).1 }
  rw [hrun]
  split <;> simp_all

theorem rawAdvanceAtEnd (hk : (ts.token i).kind = .endOfInput)
    (h : Runs ts E (f (ts.token i)) i Q) : Runs ts E (Parser.rawAdvance >>= f) i Q := by
  refine look (fun s hs => ?_) h
  obtain rfl := hs.pos
  exact if_pos hk

end

section
variable {f : Token.Kind → Parser α}

theorem peekKind (h : Runs ts E (f (ts.kindAt i)) i Q) : Runs ts E (Parser.peekKind >>= f) i Q :=
  look (fun _ hs => hs.pos ▸ rfl) h

theorem peekSecondKind (h : Runs ts E (f (ts.kindAt (ts.past i))) i Q) :
    Runs ts E (Parser.peekSecondKind >>= f) i Q :=
  look (fun _ hs => hs.pos ▸ rfl) h

end

section
variable {f : Nat → Parser α}

theorem nextIndex (h : Runs ts E (f (ts.skip i).1) i Q) : Runs ts E (Parser.nextIndex >>= f) i Q :=
  look (fun _ hs => hs.pos ▸ rfl) h

theorem rawIndex (h : Runs ts E (f i) i Q) : Runs ts E (Parser.rawIndex >>= f) i Q :=
  look (fun _ hs => hs.pos ▸ rfl) h

theorem here (h : Runs ts E (f (ts.nextAt i).span.start) i Q) : Runs ts E (Parser.here >>= f) i Q :=
  look (fun _ hs => hs.pos ▸ rfl) h

end

theorem textFrom {f : String → Parser α} {first : Nat}
    (h : Runs ts E (f (ts.textBetween first i)) i Q) :
    Runs ts E (Parser.textFrom first >>= f) i Q :=
  look (fun _ hs => hs.pos ▸ rfl) h

theorem spanned {f : Span → Parser α} {start : Nat} (h : ∀ sp, Runs ts E (f sp) i Q) :
    Runs ts E (Parser.spanFrom start >>= f) i Q :=
  .bind fun _ hs => ⟨i, Nat.le_refl i, hs, h _⟩

theorem spanFrom {f : Span → Parser α} {first : Nat}
    (h : ∀ sp, ts.Spans first i sp → Runs ts E (f sp) i Q) :
    Runs ts E (Parser.spanFrom (ts.nextAt first).span.start >>= f) i Q := by
  refine .bind fun s hs => ⟨i, Nat.le_refl i, hs, h _ ⟨rfl, fun hi => ?_⟩⟩
  rw [hs.lastEnd hi]

section
variable {f : Bool → Parser α} {p q : Parser α}

theorem newlineBefore (h : Runs ts E (f (ts.breaksAt i)) i Q) :
    Runs ts E (Parser.newlineBefore >>= f) i Q :=
  look (fun _ hs => hs.pos ▸ rfl) h

theorem isAt (hyes : ts.kindAt i = k → Runs ts E (f true) i Q)
    (hno : ts.kindAt i ≠ k → Runs ts E (f false) i Q) : Runs ts E (Parser.isAt k >>= f) i Q := by
  refine .bind (.peekKind (.pure ?_))
  by_cases hk : ts.kindAt i = k
  · rw [decide_eq_true hk]
    exact hyes hk
  · rw [decide_eq_false hk]
    exact hno hk

theorem ifAt (hyes : ts.kindAt i = k → Runs ts E p i Q) (hno : ts.kindAt i ≠ k → Runs ts E q i Q) :
    Runs ts E (do if ← Parser.isAt k then p else q) i Q :=
  isAt hyes hno

theorem sees (hk : ts.kindAt i = k) (h : Runs ts E (f true) i Q) :
    Runs ts E (Parser.isAt k >>= f) i Q :=
  .isAt (fun _ => h) fun hno => absurd hk hno

theorem misses (hk : ts.kindAt i ≠ k) (h : Runs ts E (f false) i Q) :
    Runs ts E (Parser.isAt k >>= f) i Q :=
  .isAt (fun hyes => absurd hyes hk) fun _ => h

theorem atWord (hyes : ts.kindAt i = .identifier → ts.textAt i = word → Runs ts E (f true) i Q)
    (hno : ¬ (ts.kindAt i = .identifier ∧ ts.textAt i = word) → Runs ts E (f false) i Q) :
    Runs ts E (Parser.atWord word >>= f) i Q := by
  refine .bind (.peek (.pure ?_))
  change Runs ts E (f (decide (ts.kindAt i = .identifier) && ts.textAt i == word)) i Q
  by_cases hk : ts.kindAt i = .identifier
  · by_cases hw : ts.textAt i = word
    · rw [decide_eq_true hk, Bool.true_and, beq_iff_eq.mpr hw]
      exact hyes hk hw
    · rw [decide_eq_true hk, Bool.true_and, beq_eq_false_iff_ne.mpr hw]
      exact hno fun h => hw h.2
  · rw [decide_eq_false hk, Bool.false_and]
    exact hno fun h => hk h.1

end

end Runs
end

class Readable (k : Token.Kind) : Prop where
  ne_end : k ≠ .endOfInput

instance : Readable (.punct mark) := ⟨by simp⟩
instance {word : Keyword} : Readable (.keyword word) := ⟨by simp⟩
instance : Readable .identifier := ⟨by simp⟩
instance : Readable .number := ⟨by simp⟩
instance : Readable .stringQuote := ⟨by simp⟩
instance : Readable .templateQuote := ⟨by simp⟩

theorem readable {k' : Token.Kind} [Readable k] (hk : k' = k) : k' ≠ .endOfInput :=
  hk ▸ Readable.ne_end

section
variable {α β : Type} {ts : Reading} [ts.Ended] {E : Failure → Prop} {Q : α → Nat → Prop}
  {f : Token → Parser α}

namespace Runs

theorem advance (hk : ts.kindAt i ≠ .endOfInput)
    (h : i < ts.past i → Runs ts E (f (ts.nextAt i)) (ts.past i) Q) :
    Runs ts E (Parser.advance >>= f) i Q := by
  have hlt : i < ts.past i := ts.lt_past
  refine step (Nat.le_of_lt hlt) (fun s hs => ?_) (h hlt)
  have hi := hs.inside
  obtain rfl := hs.pos
  exact ⟨_, if_neg hk, rfl, ts.past_lt hi hk, fun _ => rfl⟩

theorem rawAdvance (hk : (ts.token i).kind ≠ .endOfInput)
    (h : Runs ts E (f (ts.token i)) (i + 1) Q) : Runs ts E (Parser.rawAdvance >>= f) i Q := by
  refine step (Nat.le_succ i) (fun s hs => ?_) h
  have hi := hs.inside
  obtain rfl := hs.pos
  exact ⟨_, if_neg hk, rfl, ts.succ_lt hi hk, fun _ => rfl⟩

theorem advanceAt [Readable k] (hk : ts.kindAt i = k)
    (h : ∀ j, ts.placed.Reads k i j → i < j → Runs ts E (f (ts.nextAt i)) j Q) :
    Runs ts E (Parser.advance >>= f) i Q :=
  .advance (hk ▸ Readable.ne_end) (h _ ⟨hk, rfl, trivial⟩)

section
variable {f : Bool → Parser α} {p q : Parser α}

theorem eat [Readable k] (hyes : ∀ j, ts.placed.Reads k i j → i < j → Runs ts E (f true) j Q)
    (hno : ts.kindAt i ≠ k → Runs ts E (f false) i Q) : Runs ts E (Parser.eat k >>= f) i Q :=
  .bind (.ifAt (fun hk => .advanceAt hk fun j hread hlt => .pure (hyes j hread hlt))
    fun hk => .pure (hno hk))

theorem ifEat [Readable k] (hyes : ∀ j, ts.placed.Reads k i j → i < j → Runs ts E p j Q)
    (hno : ts.kindAt i ≠ k → Runs ts E q i Q) :
    Runs ts E (do if ← Parser.eat k then p else q) i Q :=
  eat hyes hno

theorem eatWord (hyes : ∀ j, ts.placed.ReadsWord word i j → i < j → Runs ts E (f true) j Q)
    (hno : ¬ (ts.kindAt i = .identifier ∧ ts.textAt i = word) → Runs ts E (f false) i Q) :
    Runs ts E (Parser.eatWord word >>= f) i Q :=
  .bind (.atWord (fun hk hw => .yes (.advanceAt hk fun j hread hlt =>
    .pure (hyes j ⟨hread, hw⟩ hlt))) fun h => .no (.pure (hno h)))

end

theorem advanceIf {f : String → Parser α} {c : Token.Kind → Bool} (hend : c .endOfInput = false)
    (hyes : c (ts.kindAt i) = true → i < ts.past i → Runs ts E (f (ts.textAt i)) (ts.past i) Q)
    (hno : c (ts.kindAt i) = false → E (.unexpected (ts.nextAt i))) :
    Runs ts E ((do
      if c (← Parser.peekKind) then return (← Parser.advance).text else Parser.unexpected) >>= f)
      i Q := by
  refine .bind (.peekKind (.ite (fun hc => .advance ?_ fun hlt => .pure (hyes hc hlt))
    fun hc => ?_))
  · intro hk
    rw [hk, hend] at hc
    cases hc
  · intro s hs
    obtain rfl := hs.pos
    exact hno (Bool.eq_false_iff.mpr hc)

theorem expect [Readable k]
    (hyes : ∀ j, ts.placed.Reads k i j → i < j → Runs ts E (f (ts.nextAt i)) j Q)
    (hno : ts.kindAt i ≠ k → E (.unexpected (ts.nextAt i))) :
    Runs ts E (Parser.expect k >>= f) i Q := by
  refine .bind (.ifAt (fun hk => .tail (.advanceAt hk fun j hread hlt => .pure ?_))
    fun hk s hs => ?_)
  · exact hyes j hread hlt
  · obtain rfl := hs.pos
    exact hno hk

section
variable {f : Unit → Parser α}

theorem expectMark (h : ∀ j, ts.placed.Reads (.punct mark) i j → i < j → Meets ts (f ()) j Q) :
    Meets ts (Parser.expectMark mark >>= f) i Q :=
  .bind (.expect (fun j hread hlt => .pure (h j hread hlt)) fun _ => trivial)

theorem expectKeyword {word : Keyword}
    (h : ∀ j, ts.placed.Reads (.keyword word) i j → i < j → Meets ts (f ()) j Q) :
    Meets ts (Parser.expectKeyword word >>= f) i Q :=
  .bind (.expect (fun j hread hlt => .pure (h j hread hlt)) fun _ => trivial)

theorem expectWord (h : ∀ j, ts.placed.ReadsWord word i j → i < j → Meets ts (f ()) j Q) :
    Meets ts (Parser.expectWord word >>= f) i Q :=
  .bind (.eatWord (fun j hread hlt => .yes (.pure (h j hread hlt))) fun _ => .no unexpected)

theorem semicolon (h : ∀ j, ts.placed.Closes i j → i ≤ j → Meets ts (f ()) j Q) :
    Meets ts (Parser.semicolon >>= f) i Q := by
  have hopen : ts.placed.Closes i i → Meets ts (f ()) i Q := (h i · (Nat.le_refl i))
  refine .bind (.ifEat (fun j hread hlt => .pure (h j (.mark hread) (Nat.le_of_lt hlt))) ?_)
  intro hsemi
  refine (.peekKind (.ite (fun hk => .pure (hopen (hk.elim (.brace ·) (.input ·)))) fun _ => ?_))
  exact .newlineBefore (.ite (fun hk => .pure (hopen (.line hsemi hk))) fun _ => unexpected)

end

section
variable {f : String → Parser α}

theorem identifier
    (h : ∀ j, ts.placed.Reads .identifier i j → i < j → Meets ts (f (ts.textAt i)) j Q) :
    Meets ts (Parser.identifier >>= f) i Q :=
  .bind (.expect (fun j hread hlt => .pure (h j hread hlt)) fun _ => trivial)

theorem variableName (h : ∀ j, namesVariable (ts.kindAt i) = true → ts.placed.Takes i j → i < j →
      Meets ts (f (ts.textAt i)) j Q) : Meets ts (Parser.variableName >>= f) i Q :=
  .advanceIf rfl (fun hc => h _ hc ⟨rfl, trivial⟩) fun _ => trivial

theorem anyName (h : ∀ j, (ts.kindAt i).isName = true → ts.placed.Takes i j → i < j →
      Meets ts (f (ts.textAt i)) j Q) : Meets ts (Parser.anyName >>= f) i Q :=
  .advanceIf rfl (fun hc => h _ hc ⟨rfl, trivial⟩) fun _ => trivial

end

end Runs
end

section
variable {α : Type} {rd : Reading} [rd.Ended] {E : Failure → Prop} {Q : α → Nat → Prop}
  {f : Token → Parser α}

namespace Runs

theorem take (hj : rd.Takes i j) (hk : rd.kindAt i ≠ .endOfInput)
    (h : i < j → Runs rd E (f (rd.nextAt i)) j Q) : Runs rd E (Parser.advance >>= f) i Q :=
  .advance hk fun _ => hj.1 ▸ h hj.lt

theorem takeAt [Readable k] (hread : rd.Reads k i j)
    (h : i < j → Runs rd E (f (rd.nextAt i)) j Q) : Runs rd E (Parser.advance >>= f) i Q :=
  .take hread.2 (hread.1 ▸ Readable.ne_end) h

theorem read [Readable k] (hread : rd.Reads k i j)
    (h : i < j → Runs rd E (f (rd.nextAt i)) j Q) : Runs rd E (Parser.expect k >>= f) i Q :=
  .expect (fun _ hread' _ => hread'.2.1 ▸ hread.2.1 ▸ h hread.lt) fun hno => absurd hread.1 hno

section
variable {f : Bool → Parser α}

theorem eats [Readable k] (hread : rd.Reads k i j) (h : i < j → Runs rd E (f true) j Q) :
    Runs rd E (Parser.eat k >>= f) i Q :=
  .eat (fun _ hread' _ => hread'.2.1 ▸ hread.2.1 ▸ h hread.lt) fun hno => absurd hread.1 hno

theorem leaves [Readable k] (hno : rd.kindAt i ≠ k) (h : Runs rd E (f false) i Q) :
    Runs rd E (Parser.eat k >>= f) i Q :=
  .eat (fun _ hread _ => absurd hread.1 hno) fun _ => h

theorem mayEat [Readable k] {b : Bool} (hread : rd.MayRead k b i j)
    (h : i ≤ j → Runs rd E (f b) j Q) : Runs rd E (Parser.eat k >>= f) i Q := by
  cases hread with
  | yes hread => exact .eats hread fun hlt => h (Nat.le_of_lt hlt)
  | no hno => exact .leaves hno (h (Nat.le_refl i))

theorem eatsWord (hread : rd.ReadsWord word i j) (h : i < j → Runs rd E (f true) j Q) :
    Runs rd E (Parser.eatWord word >>= f) i Q :=
  .eatWord (fun _ hread' _ => hread'.1.2.1 ▸ hread.1.2.1 ▸ h hread.lt)
    fun hno => absurd ⟨hread.1.1, hread.2⟩ hno

theorem leavesWord (hno : ¬ (rd.kindAt i = .identifier ∧ rd.textAt i = word))
    (h : Runs rd E (f false) i Q) : Runs rd E (Parser.eatWord word >>= f) i Q :=
  .eatWord (fun _ hread _ => absurd ⟨hread.1.1, hread.2⟩ hno) fun _ => h

end

section
variable {f : Unit → Parser α}

theorem readMark (hread : rd.Reads (.punct mark) i j) (h : i < j → Runs rd E (f ()) j Q) :
    Runs rd E (Parser.expectMark mark >>= f) i Q :=
  .bind (.read hread fun hlt => .pure (h hlt))

theorem readKeyword {word : Keyword} (hread : rd.Reads (.keyword word) i j)
    (h : i < j → Runs rd E (f ()) j Q) : Runs rd E (Parser.expectKeyword word >>= f) i Q :=
  .bind (.read hread fun hlt => .pure (h hlt))

theorem readWord (hread : rd.ReadsWord word i j) (h : i < j → Runs rd E (f ()) j Q) :
    Runs rd E (Parser.expectWord word >>= f) i Q :=
  .bind (.eatsWord hread fun hlt => .yes (.pure (h hlt)))

theorem close (hclose : rd.Closes i j) (h : i ≤ j → Runs rd E (f ()) j Q) :
    Runs rd E (Parser.semicolon >>= f) i Q := by
  have h := h hclose.le
  have hopen : rd.kindAt i ≠ .punct .semicolon → rd.kindAt i = .punct .rBrace ∨
      rd.kindAt i = .endOfInput ∨ rd.breaksAt i = true → Runs rd E (f ()) i Q →
      Runs rd E (Parser.semicolon >>= f) i Q := by
    intro hno hends h
    refine .bind (.leaves hno (.no (.peekKind (.ite (fun _ => .pure h) fun hk => ?_))))
    refine .newlineBefore (.ite (fun _ => .pure h) fun hbreak => ?_)
    exact (hends.elim (hk <| .inl ·) (·.elim (hk <| .inr ·) hbreak)).elim
  cases hclose with
  | mark hread => exact .bind (.eats hread fun _ => .yes (.pure h))
  | brace hk => exact hopen (hk ▸ nofun) (.inl hk) h
  | input hk => exact hopen (hk ▸ nofun) (.inr (.inl hk)) h
  | line hno hbreak => exact hopen hno (.inr (.inr hbreak)) h

end

section
variable {f : String → Parser α}

theorem readName {name : String} (hread : rd.ReadsWord name i j)
    (h : i < j → Runs rd E (f name) j Q) : Runs rd E (Parser.identifier >>= f) i Q :=
  .bind (.read hread.1 fun hlt =>
    .pure (hread.2.symm ▸ h hlt : Runs rd E (f (rd.textAt i)) j Q))

theorem readVariable (hk : namesVariable (rd.kindAt i) = true) (hj : rd.Takes i j)
    (h : i < j → Runs rd E (f (rd.textAt i)) j Q) : Runs rd E (Parser.variableName >>= f) i Q :=
  .advanceIf rfl (fun _ _ => hj.1 ▸ h hj.lt) fun hc => absurd (hk.symm.trans hc) nofun

theorem readAny (hk : (rd.kindAt i).isName = true) (hj : rd.Takes i j)
    (h : i < j → Runs rd E (f (rd.textAt i)) j Q) : Runs rd E (Parser.anyName >>= f) i Q :=
  .advanceIf rfl (fun _ _ => hj.1 ▸ h hj.lt) fun hc => absurd (hk.symm.trans hc) nofun

end

end Runs
end

/-!
# Repetition

A repetition keeps what each of its rounds keeps.  Its rounds are bounded by the
tokens that are left.
-/

section
variable {α : Type} {ts : Reading} {E : Failure → Prop}

theorem Runs.collect {step : Parser (Option α)} {L : List α → Nat → Prop}
    (I : List α → Nat → Prop) (hinit : I [] i)
    (hstep : ∀ done i', i ≤ i' → I done i' → Runs ts E step i' fun a j =>
      match a with
      | none => L done.reverse j
      | some a => i' < j ∧ I (a :: done) j) : Runs ts E (Parser.collect step) i L := by
  have hloop : ∀ n done i', i ≤ i' → I done i' → ts.tokens.size ≤ i' + n →
      Runs ts E (Parser.collectLoop step done n) i' L := by
    intro n
    induction n with
    | zero => exact fun _ _ _ _ => .beyond
    | succ n ih =>
      intro done i' hle hdone hn
      refine (hstep done i' hle hdone).next fun a j _ h => ?_
      cases a with
      | none => exact .pure h
      | some a => exact ih (a :: done) j (by omega) h.2 (by omega)
  exact hloop (ts.tokens.size + 1) [] i (Nat.le_refl i) hinit (by omega)

theorem Runs.commaList [ts.Ended] {H : Ending} {cx : Context} {c : ItemClass} {item : Parser c.Item}
    (hitem : ∀ i', i ≤ i' → Meets ts item i' fun x => Derives ts.placed H (.item cx c x) i') :
    Meets ts (Parser.commaList c.close c.hole item) i fun xs =>
      Derives ts.placed H (.items cx c xs) i := by
  have hloop : ∀ n done i', i ≤ i' → ts.tokens.size ≤ i' + n →
      Meets ts (Parser.commaListLoop c.close c.hole item done n) i' fun ys j =>
        ∃ xs, ys = done.reverse ++ xs ∧ Derives ts.placed H (.items cx c xs) i' j := by
    intro n
    induction n with
    | zero => exact fun _ _ _ => .beyond
    | succ n ih =>
      intro done i' hle hn
      have hagain : ∀ x i₁, i' < i₁ →
          (∀ xs j, Derives ts.placed H (.items cx c xs) i₁ j →
            Derives ts.placed H (.items cx c (x :: xs)) i' j) →
          Meets ts (Parser.commaListLoop c.close c.hole item (x :: done) n) i₁ fun ys j =>
            ∃ xs, ys = done.reverse ++ xs ∧ Derives ts.placed H (.items cx c xs) i' j := by
        intro x i₁ hlt hcons
        refine (ih (x :: done) i₁ (by omega) (by omega)).mono ?_
        rintro ys j _ ⟨xs, rfl, hxs⟩
        exact ⟨x :: xs, by simp, hcons xs j hxs⟩
      have hmain : Meets ts (do
          let a ← item
          if ← Parser.eatMark .comma then Parser.commaListLoop c.close c.hole item (a :: done) n
          else
            Parser.expectMark c.close
            return (a :: done).reverse) i' fun ys j =>
          ∃ xs, ys = done.reverse ++ xs ∧ Derives ts.placed H (.items cx c xs) i' j := by
        refine (hitem i' hle).next fun x i₁ hle₁ hx => .ifEat (fun i₂ hcomma hlt => ?_) fun _ => ?_
        · exact hagain x i₂ (by omega) fun xs j hxs => .moreItems hx hcomma hxs
        · exact .expectMark fun j hclose _ => .pure ⟨[x], by simp, .lastItem hx hclose⟩
      unfold Parser.commaListLoop
      refine .ifEat (fun j hclose _ => .pure ⟨[], by simp, .noItems hclose⟩) fun _ => ?_
      cases hhole : c.hole with
      | none =>
        rw [hhole] at hmain
        exact hmain
      | some x =>
        rw [hhole] at hagain hmain
        exact .ifEat (fun i₁ hcomma hlt => hagain x i₁ hlt fun xs j => .hole hhole hcomma)
          fun _ => hmain
  refine (hloop (ts.tokens.size + 1) [] i (Nat.le_refl i) (by omega)).mono ?_
  rintro ys j _ ⟨xs, rfl, hxs⟩
  exact hxs

end

section
variable {α : Type} {ts : Reading} {E : Failure → Prop} {O : Option α → Nat → Prop}
  {rule : Speculation} {cx : Context} {p : Parser α}

namespace Runs

theorem attempt (hp : Meets ts p i fun a => O (some a)) (hnone : O none i) :
    Runs ts E (Parser.attempt p) i O := by
  intro s hs
  unfold Parser.attempt
  cases hrun : p ts s with
  | ok a s' => exact hp.of_ok hs hrun
  | error e s' =>
    cases e with
    | exhausted => exact (hp.of_error hs hrun).elim
    | unexpected t => exact ⟨i, Nat.le_refl i, ⟨hs.pos, hs.inside, hs.lastEnd⟩, hnone⟩

theorem speculate (hp : Meets ts p i fun a => O (some a)) (hnone : O none i) :
    Runs ts E (Parser.speculate rule cx p) i O := by
  intro s hs
  have hattempt := attempt (E := E) hp hnone s hs
  unfold Parser.speculate
  dsimp only
  by_cases hfailed : ts.remembers && s.failed.contains ⟨(ts.skip s.pos).1, rule, cx⟩
  · rw [if_pos hfailed]
    exact ⟨i, Nat.le_refl i, hs, hnone⟩
  · rw [if_neg hfailed]
    cases ha : Parser.attempt p ts s with
    | error e s' =>
      rw [ha] at hattempt
      exact hattempt
    | ok a s' =>
      rw [ha] at hattempt
      cases a with
      | some a => exact hattempt
      | none =>
        obtain ⟨j, hle, hs', h⟩ := hattempt
        exact ⟨j, hle, ⟨hs'.pos, hs'.inside, hs'.lastEnd⟩, h⟩

theorem attemptSure (hp : Gives ts p i fun a => O (some a)) : Runs ts E (Parser.attempt p) i O := by
  intro s hs
  unfold Parser.attempt
  cases hrun : p ts s with
  | ok a s' => exact hp.of_ok hs hrun
  | error e s' => exact (hp.of_error hs hrun).elim

theorem speculateSure (hts : ts.remembers = false) (hp : Gives ts p i fun a => O (some a)) :
    Runs ts E (Parser.speculate rule cx p) i O := by
  intro s hs
  unfold Parser.speculate Parser.attempt
  dsimp only
  rw [hts, Bool.false_and, if_neg Bool.false_ne_true]
  cases hrun : p ts s with
  | ok a s' => exact hp.of_ok hs hrun
  | error e s' => exact (hp.of_error hs hrun).elim

end Runs
end

end Grammar
end ScriptBundler
