import ScriptBundler.Proofs.Remembering

/-!
# Parsing ends

Whatever tokens are parsed, if the end of the input is the last of them, the
answer is a program or an unexpected token.  Nothing is answered because a
bound was reached: not the bound on nested calls, not the bounds on the rounds
of a loop, and not the bounds on how far white space and comments are searched
through.
-/

namespace ScriptBundler
namespace Grammar

namespace Stream

variable {ts : Stream} {left n i : Nat} {crossed : Bool}

theorem lineCommentEnd_eq [ts.Ended] (hn : ts.tokens.size ≤ i + n) (hle : n ≤ left) :
    ts.lineCommentEnd left i = ts.lineCommentEnd n i := by
  induction n generalizing left i with
  | zero =>
    cases left with
    | zero => rfl
    | succ left =>
      have hend : (ts.token i).kind = .endOfInput := kind_of_size_le hn
      unfold lineCommentEnd
      rw [hend]
  | succ n ih =>
    cases left with
    | zero => omega
    | succ left =>
      unfold lineCommentEnd
      rw [ih (by omega) (by omega)]

theorem blockCommentEndFrom_eq {afterStar : Bool} [ts.Ended]
    (hn : ts.tokens.size ≤ i + n) (hle : n ≤ left) :
    ts.blockCommentEndFrom left i afterStar crossed =
      ts.blockCommentEndFrom n i afterStar crossed := by
  induction n generalizing left i afterStar crossed with
  | zero =>
    cases left with
    | zero => rfl
    | succ left =>
      have hend : (ts.token i).kind = .endOfInput := kind_of_size_le hn
      unfold blockCommentEndFrom
      dsimp only
      rw [hend]
  | succ n ih =>
    cases left with
    | zero => omega
    | succ left =>
      have hnext : ∀ afterStar crossed, ts.blockCommentEndFrom left (i + 1) afterStar crossed =
          ts.blockCommentEndFrom n (i + 1) afterStar crossed :=
        fun _ _ => ih (by omega) (by omega)
      unfold blockCommentEndFrom
      simp only [hnext]

theorem skipFrom_eq [ts.Ended] (hn : ts.tokens.size < i + n) (hle : n ≤ left) :
    ts.skipFrom left i crossed = ts.skipFrom n i crossed := by
  induction n generalizing left i crossed with
  | zero =>
    cases left with
    | zero => rfl
    | succ left =>
      have hnone : ts.trivium? i = none := trivium?_of_size_le (Nat.le_of_lt hn)
      unfold skipFrom
      rw [hnone]
  | succ n ih =>
    cases left with
    | zero => omega
    | succ left =>
      unfold skipFrom
      split
      · rfl
      · rename_i next breaks hnext
        have hlt := lt_of_trivium? hnext
        rw [ih (by omega) (by omega)]

/-- No search among white space and comments is cut short: with more steps it
would end at the same token. -/
structure Unhurried (ts : Stream) : Prop where
  line : ∀ i more, ts.lineCommentEnd (ts.tokens.size - i + more) i =
    ts.lineCommentEnd (ts.tokens.size - i) i
  block : ∀ i more afterStar crossed,
    ts.blockCommentEndFrom (ts.tokens.size - i + more) i afterStar crossed =
      ts.blockCommentEndFrom (ts.tokens.size - i) i afterStar crossed
  blanks : ∀ i more crossed, ts.skipFrom (ts.tokens.size - i + 1 + more) i crossed =
    ts.skipFrom (ts.tokens.size - i + 1) i crossed

theorem Ended.unhurried (_ : ts.Ended) : ts.Unhurried where
  line _ _ := lineCommentEnd_eq (by omega) (by omega)
  block _ _ _ _ := blockCommentEndFrom_eq (by omega) (by omega)
  blanks _ _ _ := skipFrom_eq (by omega) (by omega)

end Stream

theorem parseWithin_answers {tokens : Array Token} {d : Nat} {remembers : Bool}
    (hend : tokens.back?.map Token.kind = some .endOfInput) (hd : tokens.size ≤ d) :
    parseWithin d ⟨tokens, remembers⟩ ≠ .error .exhausted := by
  have hends : Outcome Excused (fun _ => True) (program (rules d) ⟨tokens, remembers⟩ .start) :=
    program_ends hend hd
  unfold parseWithin
  split
  · exact nofun
  · rename_i hrun
    rw [hrun] at hends
    exact hends.elim
  · exact nofun

end Grammar

open Grammar

/-- Tokens that end in the end of the input are parsed to a program or to an
unexpected token.  Any bound on nested calls that is not less than the number of
tokens gives the same answer, and no search for the next token is cut short. -/
theorem Program.parse_terminates (tokens : Array Token)
    (hend : tokens.back?.map Token.kind = some .endOfInput) :
    ((∃ p, Program.parse tokens = .ok p) ∨
      ∃ t, Program.parse tokens = .error (.unexpected t)) ∧
    (∀ depth, tokens.size ≤ depth →
      parseWithin depth ⟨tokens, true⟩ = Program.parse tokens) ∧
    Stream.Unhurried ⟨tokens, true⟩ := by
  refine ⟨?_, fun depth hdepth => ?_, (ended_of_back? hend).unhurried⟩
  · have hanswers : Program.parse tokens ≠ .error .exhausted :=
      parseWithin_answers hend (Nat.le_succ _)
    cases hparse : Program.parse tokens with
    | ok p => exact .inl ⟨p, rfl⟩
    | error e =>
      cases e with
      | unexpected t => exact .inr ⟨t, rfl⟩
      | exhausted => exact absurd hparse hanswers
  · rw [Program.parse, parseWithin_remembering hend hdepth,
      parseWithin_remembering hend (Nat.le_succ _), parseWithin_deeper hend (Nat.le_refl _) hdepth,
      parseWithin_deeper hend (Nat.le_refl _) (Nat.le_succ _)]

/-- Comments, strings, templates and brackets that nothing closes. -/
theorem Program.parse_terminates_unclosed :
    let tokens := Token.lex "(\x7b[`$\x7b'a /* b"
    tokens.back?.map Token.kind = some .endOfInput ∧
      ((∃ p, Program.parse tokens = .ok p) ∨
        ∃ t, Program.parse tokens = .error (.unexpected t)) := by
  have hend : (Token.lex "(\x7b[`$\x7b'a /* b").back?.map Token.kind = some .endOfInput := by
    decide +kernel
  exact ⟨hend, (Program.parse_terminates _ hend).1⟩

end ScriptBundler
