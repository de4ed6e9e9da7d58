/-!
# Numbers and columns in messages

Messages write natural numbers in decimal and align them to the right in
columns of a fixed width.
-/

namespace ScriptBundler
namespace Text

def decimal (n : Nat) : String :=
  String.ofList (Nat.toDigits 10 n)

def blanks (n : Nat) : String :=
  String.ofList (List.replicate n ' ')

def alignRight (width : Nat) (s : String) : String :=
  blanks (width - s.length) ++ s

end Text
end ScriptBundler
