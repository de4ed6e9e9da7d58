import ScriptBundler.Token

/-!
# Token streams

The grammar reads tokens by their index.  White space and comments stand
between the tokens that matter; the functions here find the next one that
does.  Comments are made of ordinary tokens, so where a comment ends is decided
on tokens too.
-/

namespace ScriptBundler

namespace Token

def startsWith (t : Token) (c : Char) : Bool :=
  t.text.toList.head? == some c

def endsWith (t : Token) (c : Char) : Bool :=
  t.text.toList.getLast? == some c

end Token

namespace Grammar

/-- The tokens to read.  `remembers` says whether a speculation that failed
once is skipped when it is tried again. -/
structure Stream where
  tokens : Array Token
  remembers : Bool

namespace Stream

/-- The token at an index; behind the end the last one is repeated. -/
def token (ts : Stream) (i : Nat) : Token :=
  (ts.tokens[i]?).getD (ts.tokens.back?.getD Token.endOfNothing)

/-- Index of the line break or end that closes a line comment, searched for
from `i` on among at most `left` tokens. -/
def lineCommentEnd (ts : Stream) : (left i : Nat) → Nat
  | 0, i => i
  | left + 1, i =>
      match (ts.token i).kind with
      | .newline | .endOfInput => i
      | _ => lineCommentEnd ts left (i + 1)

/-- Index after the slash that closes a block comment, searched for from `i`
on, and whether a line break was passed.  A slash closes the comment when the
token before it ends in a star. -/
def blockCommentEndFrom (ts : Stream) :
    (left i : Nat) → (afterStar crossed : Bool) → Nat × Bool
  | 0, i, _, crossed => (i, crossed)
  | left + 1, i, afterStar, crossed =>
      let tok := ts.token i
      match tok.kind with
      | .endOfInput => (i, crossed)
      | .punct .slash =>
          if afterStar then (i + 1, crossed)
          else blockCommentEndFrom ts left (i + 1) (tok.endsWith '*') crossed
      | .newline => blockCommentEndFrom ts left (i + 1) (tok.endsWith '*') true
      | _ => blockCommentEndFrom ts left (i + 1) (tok.endsWith '*') crossed

/-- Where the block comment ends whose first star token has index `start`.
The last star of an opening `/**` may already belong to the end. -/
def blockCommentEnd (ts : Stream) (start : Nat) : Nat × Bool :=
  let tok := ts.token start
  blockCommentEndFrom ts (ts.tokens.size - start) (start + 1)
    (decide (1 < tok.text.length) && tok.endsWith '*') false

/-- One piece of white space or one comment at index `i`: the index after it
and whether it holds a line break.  A line comment leaves its line break for
the next piece. -/
def trivium? (ts : Stream) (i : Nat) : Option (Nat × Bool) :=
  match (ts.token i).kind with
  | .space => some (i + 1, false)
  | .newline => some (i + 1, true)
  | .punct .slash =>
      let next := ts.token (i + 1)
      match next.kind with
      | .punct .slash | .punct .slashEq =>
          some (lineCommentEnd ts (ts.tokens.size - (i + 2)) (i + 2), false)
      | _ => if next.startsWith '*' then some (blockCommentEnd ts (i + 1)) else none
  | _ => none

/-- Skip white space and comments from `i` on, in at most `left` pieces. -/
def skipFrom (ts : Stream) : (left i : Nat) → (crossed : Bool) → Nat × Bool
  | 0, i, crossed => (i, crossed)
  | left + 1, i, crossed =>
      match ts.trivium? i with
      | none => (i, crossed)
      | some (next, breaks) =>
          if next < ts.tokens.size then skipFrom ts left next (crossed || breaks)
          else (ts.tokens.size - 1, crossed || breaks)

/-- Index of the next token that matters, and whether a line break stands
before it. -/
def skip (ts : Stream) (i : Nat) : Nat × Bool :=
  skipFrom ts (ts.tokens.size - i + 1) i false

end Stream
end Grammar
end ScriptBundler
