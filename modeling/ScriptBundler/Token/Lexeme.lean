import ScriptBundler.Token
import ScriptBundler.Text.Lines

/-!
# Lexemes

The longest piece of text that makes one token, found by looking at the text
alone.  A rule for a class of lexemes answers how many characters the lexeme
has after its first one; the first character always belongs to it, so cutting
a text into lexemes uses it up.
-/

namespace ScriptBundler
namespace Lexeme

def isWordStart (c : Char) : Bool :=
  c.isAlpha || c == '_' || c == '$'

def isWordPart (c : Char) : Bool :=
  isWordStart c || c.isDigit

def isBlank (c : Char) : Bool :=
  c == ' ' || c == '\t' || c == '\r'

def isHexDigit (c : Char) : Bool :=
  c.isDigit || ('a' ≤ c && c ≤ 'f') || ('A' ≤ c && c ≤ 'F')

def isOctalDigit (c : Char) : Bool :=
  '0' ≤ c && c ≤ '7'

def isBinaryDigit (c : Char) : Bool :=
  c == '0' || c == '1'

def run (p : Char → Bool) (cs : List Char) : Nat :=
  (cs.takeWhile p).length

/-- Length of a decimal exponent.  It counts only when it has a digit. -/
def exponentLength : List Char → Nat
  | c :: rest =>
      if c == 'e' || c == 'E' then
        match rest with
        | sign :: digits =>
            if sign == '+' || sign == '-' then
              if run Char.isDigit digits = 0 then 0 else 2 + run Char.isDigit digits
            else if run Char.isDigit rest = 0 then 0
            else 1 + run Char.isDigit rest
        | [] => 0
      else 0
  | [] => 0

def fractionLength : List Char → Nat
  | '.' :: digits => 1 + run Char.isDigit digits
  | _ => 0

def decimalLength (cs : List Char) : Nat :=
  let whole := run Char.isDigit cs
  let fraction := fractionLength (cs.drop whole)
  whole + fraction + exponentLength (cs.drop (whole + fraction))

def radixDigit? (letter : Char) : Option (Char → Bool) :=
  if letter == 'x' || letter == 'X' then some isHexDigit
  else if letter == 'o' || letter == 'O' then some isOctalDigit
  else if letter == 'b' || letter == 'B' then some isBinaryDigit
  else none

/-- Length of a number without its first character, which is a digit, or a
point with a digit after it. -/
def numberTail (c : Char) (rest : List Char) : Nat :=
  match c, rest with
  | '0', letter :: digits =>
      match radixDigit? letter with
      | some isDigit => 1 + run isDigit digits
      | none => decimalLength (c :: rest) - 1
  | _, _ => decimalLength (c :: rest) - 1

def startsWithDigit : List Char → Bool
  | c :: _ => c.isDigit
  | [] => false

/-- Kind of the lexeme that starts with `c` before `rest`, and how many
characters of `rest` belong to it. -/
def classify (c : Char) (rest : List Char) : Token.Kind × Nat :=
  if isWordStart c then
    let n := run isWordPart rest
    match Keyword.ofText? (String.ofList (c :: rest.take n)) with
    | some word => (.keyword word, n)
    | none => (.identifier, n)
  else if c.isDigit || (c == '.' && startsWithDigit rest) then
    (.number, numberTail c rest)
  else if c == '"' || c == '\'' then (.stringQuote, 0)
  else if c == '\x60' then (.templateQuote, 0)
  else if isBlank c then (.space, run isBlank rest)
  else if Text.isLineBreak c then (.newline, 0)
  else
    match Punctuator.longest? (c :: rest) with
    | some mark => (.punct mark, mark.chars.length - 1)
    | none => (.any, 0)

end Lexeme

structure Lexeme where
  kind : Token.Kind
  text : String
deriving DecidableEq, Repr

namespace Lexeme

def splitAfter (done : Array Lexeme) : List Char → Array Lexeme
  | [] => done
  | c :: rest =>
      let (kind, n) := classify c rest
      splitAfter (done.push ⟨kind, String.ofList (c :: rest.take n)⟩) (rest.drop n)
termination_by cs => cs.length
decreasing_by
  simp only [List.length_drop, List.length_cons]
  omega

def split (cs : List Char) : Array Lexeme :=
  splitAfter #[] cs

end Lexeme
end ScriptBundler
