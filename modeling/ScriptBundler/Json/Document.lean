import ScriptBundler.Json.Value
import ScriptBundler.Json.Reader

/-!
# Reading values of any type

A text is read as the value that it writes.  Of members with the same key the
last one counts, and brackets are nested up to a fixed depth.
-/

namespace ScriptBundler
namespace Json

namespace Numeral

def negativeBound : Nat :=
  Nat.pow 2 63

/-- The value of a number.  Whole numbers of 64 bits are exact, larger ones are
rounded. -/
def toJson (negative : Bool) (n : Numeral) : Json :=
  if n.isWhole && !negative then .number n.value.digits
  else if n.isWhole && decide (n.value.digits ≤ negativeBound) then
    .scaled negative n.value.digits 0
  else if n.value.digits = 0 then .scaled negative 0 0
  else if n.value.exponent < 0 then .scaled negative n.value.digits n.value.exponent
  else .scaled negative (scaleUp n.value.digits n.value.exponent.toNat) 0

end Numeral

def setMember (members : List (String × Json)) (key : String) (value : Json) :
    List (String × Json) :=
  members.filter (fun member => member.1 != key) ++ [(key, value)]

namespace Reader

def scalar : Reader Json := do
  match ← peek? with
  | some 'n' =>
      word ['n', 'u', 'l', 'l']
      return .null
  | some 't' =>
      word ['t', 'r', 'u', 'e']
      return .bool true
  | some 'f' =>
      word ['f', 'a', 'l', 's', 'e']
      return .bool false
  | some '"' =>
      advance
      return .string (← text true)
  | some '-' =>
      advance
      return (← number).toJson true
  | some c => if c.isDigit then return (← number).toJson false else unexpected
  | none => unexpected

def value : Nat → Reader Json
  | 0 => do
      match ← peek? with
      | some '[' | some '\x7b' => throw .malformed
      | _ => scalar
  | depth + 1 => do
      match ← peek? with
      | some '[' => return .array (← list (value depth))
      | some '\x7b' =>
          let member (members : List (String × Json)) (key : String) :
              Reader (List (String × Json)) := do
            expect ':'
            return setMember members key (← value depth)
          return .object (← object member [])
      | _ => scalar

end Reader

def deepest : Nat :=
  127

def ofText (source : String) : Except Fault Json :=
  Reader.run (Reader.value deepest) source

end Json
end ScriptBundler
