/-!
# Source spans

A span is a half-open range of byte offsets into a source text.  Tokens carry
the span they were read from and syntax trees the span of the tokens they were
built from; nodes that the bundler makes itself carry the empty span at the
start of the text.
-/

namespace ScriptBundler

structure Span where
  start : Nat
  stop : Nat
deriving DecidableEq, Repr, Inhabited

namespace Span

/-- The span of a node that stands nowhere in the source. -/
def nowhere : Span :=
  ⟨0, 0⟩

def length (s : Span) : Nat :=
  s.stop - s.start

def isEmpty (s : Span) : Bool :=
  s.start == s.stop

def merge (a b : Span) : Span :=
  ⟨min a.start b.start, max a.stop b.stop⟩

end Span
end ScriptBundler
