import ScriptBundler.Text.Alphanumeric

/-!
# Pieces of printed text

A printed tree is a list of pieces.  Most pieces are kept apart: a blank is put
before one that would otherwise be read together with the text in front of it.
A blank is the only text that rendering adds.
-/

namespace ScriptBundler

inductive Piece where
  /-- Text that is kept apart from the text before it. -/
  | apart (text : String)
  /-- Text that is written right behind the text before it. -/
  | tight (text : String)
deriving DecidableEq, Repr

namespace Piece

def isWordChar (c : Char) : Bool :=
  Text.isAlphanumeric c || c == '_' || c == '$'

/-- Whether two characters next to each other would be read as one token. -/
def merges (last first : Char) : Bool :=
  (isWordChar last && isWordChar first) ||
    (last == '+' && first == '+') || (last == '-' && first == '-')

def needsBlank : Option Char → List Char → Bool
  | some last, first :: _ => merges last first
  | _, _ => false

def textAfter (last : Option Char) : Piece → List Char
  | .apart text =>
      if needsBlank last text.toList then ' ' :: text.toList else text.toList
  | .tight text => text.toList

def renderAfter (last : Option Char) : List Piece → List Char
  | [] => []
  | piece :: rest =>
      let text := textAfter last piece
      text ++ renderAfter (text.getLast?.or last) rest

def render (pieces : List Piece) : String :=
  String.ofList (renderAfter none pieces)

def put (text : String) : List Piece :=
  [.apart text]

/-- One piece that is written right behind the text before it. -/
def stick (text : String) : List Piece :=
  [.tight text]

def putIf (condition : Bool) (text : String) : List Piece :=
  if condition then put text else []

def commas (items : List (List Piece)) : List Piece :=
  (items.intersperse (put ",")).flatten

def parens (inner : List Piece) : List Piece :=
  put "(" ++ inner ++ put ")"

def brackets (inner : List Piece) : List Piece :=
  put "[" ++ inner ++ put "]"

def braces (inner : List Piece) : List Piece :=
  put "\x7b" ++ inner ++ put "\x7d"

end Piece
end ScriptBundler
