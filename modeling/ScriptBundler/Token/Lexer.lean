import ScriptBundler.Token.Lexeme

/-!
# Tokens of a source text

Lexemes get their place by counting: bytes for the span, characters for the
column, and line breaks for the line.  The last token marks the end of the
input and is empty.
-/

namespace ScriptBundler

structure Place where
  offset : Nat
  line : Nat
  column : Nat
deriving DecidableEq, Repr

namespace Place

def start : Place :=
  ⟨0, 1, 1⟩

def after (p : Place) (l : Lexeme) : Place :=
  if l.kind = .newline then ⟨p.offset + l.text.utf8ByteSize, p.line + 1, 1⟩
  else ⟨p.offset + l.text.utf8ByteSize, p.line, p.column + l.text.length⟩

end Place

namespace Token

def locate (p : Place) (l : Lexeme) : Token :=
  ⟨l.kind, l.text, ⟨p.offset, p.offset + l.text.utf8ByteSize⟩, p.line, p.column⟩

def append (placed : Place × Array Token) (l : Lexeme) : Place × Array Token :=
  (placed.1.after l, placed.2.push (locate placed.1 l))

def endAt (p : Place) : Token :=
  ⟨.endOfInput, "", ⟨p.offset, p.offset⟩, p.line, p.column⟩

def lex (source : String) : Array Token :=
  let placed := (Lexeme.split source.toList).foldl append (Place.start, #[])
  placed.2.push (endAt placed.1)

end Token
end ScriptBundler
