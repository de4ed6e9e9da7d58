/-!
# Cutting texts

A text is cut at every character of a class.  The characters it is cut at are
left out, and there is always one part more than there are such characters.
-/

namespace ScriptBundler
namespace Text

def prependToParts (cut : Char → Bool) (c : Char) (parts : List (List Char)) :
    List (List Char) :=
  if cut c then [] :: parts
  else
    match parts with
    | [] => [[c]]
    | part :: rest => (c :: part) :: rest

def split (cut : Char → Bool) (cs : List Char) : List (List Char) :=
  cs.foldr (prependToParts cut) [[]]

def trimEnd (drop : Char → Bool) (cs : List Char) : List Char :=
  (cs.reverse.dropWhile drop).reverse

def trim (drop : Char → Bool) (cs : List Char) : List Char :=
  trimEnd drop (cs.dropWhile drop)

end Text
end ScriptBundler
