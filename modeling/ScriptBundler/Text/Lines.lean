import ScriptBundler.Text.Split

/-!
# Lines of a source text

A line ends at a line feed, a vertical tab or a form feed.  The text of a line
leaves out the character that ends it and any carriage returns in front of
that character.
-/

namespace ScriptBundler
namespace Text

def isLineBreak (c : Char) : Bool :=
  c == '\n' || c == '\x0b' || c == '\x0c'

/-- The lines of a text: one more than there are line breaks. -/
def splitLines (cs : List Char) : List (List Char) :=
  split isLineBreak cs

def trimReturns (line : List Char) : List Char :=
  trimEnd (· == '\r') line

def lineCount (source : String) : Nat :=
  (splitLines source.toList).length

/-- Text of the line with a number counted from one; line zero is read as the
first line, and a line after the last one is empty. -/
def lineText (source : String) (line : Nat) : String :=
  match (splitLines source.toList)[line - 1]? with
  | some text => String.ofList (trimReturns text)
  | none => ""

end Text
end ScriptBundler
