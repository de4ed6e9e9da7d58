import ScriptBundler.Json.Number

/-!
# Reading JSON

Readers take a value of a given type from the front of a text.  A text is
faulty at the first place, from left to right, where it cannot go on being the
value asked for, and the kind of the fault is told apart by what stands there:
nothing, something that is not JSON, or JSON of another type.
-/

namespace ScriptBundler
namespace Json

inductive Fault where
  /-- The text ends too early. -/
  | ended
  /-- The text is not JSON. -/
  | malformed
  /-- The text is JSON, but not of the type asked for. -/
  | mismatched
deriving DecidableEq, Repr

abbrev Reader (α : Type) := StateT (List Char) (Except Fault) α

namespace Reader

def isBlank (c : Char) : Bool :=
  c == ' ' || c == '\t' || c == '\n' || c == '\r'

/-- The next character that is not blank; blanks before it are dropped. -/
def peek? : Reader (Option Char) := do
  let rest := (← get).dropWhile isBlank
  set rest
  return rest.head?

def advance : Reader Unit :=
  modify (fun rest => rest.drop 1)

def unexpected {α : Type} : Reader α := do
  if (← get).isEmpty then throw .ended else throw .malformed

def expect (c : Char) : Reader Unit := do
  if (← peek?) = some c then advance else unexpected

def word : List Char → Reader Unit
  | [] => return ()
  | c :: rest => do
      if (← get).head? = some c then
        advance
        word rest
      else
        unexpected

def hexDigit? (c : Char) : Option Nat :=
  if c.isDigit then some (c.toNat - '0'.toNat)
  else if 'a' ≤ c ∧ c ≤ 'f' then some (c.toNat - 'a'.toNat + 10)
  else if 'A' ≤ c ∧ c ≤ 'F' then some (c.toNat - 'A'.toNat + 10)
  else none

/-- The number that four hexadecimal digits write.  The text has ended if fewer
than four bytes are left. -/
def hexQuad : List Char → Except Fault Nat
  | a :: b :: c :: d :: _ =>
      match hexDigit? a, hexDigit? b, hexDigit? c, hexDigit? d with
      | some a, some b, some c, some d => .ok (((a * 16 + b) * 16 + c) * 16 + d)
      | _, _, _, _ => .error .malformed
  | rest => if (String.ofList rest).utf8ByteSize < 4 then .error .ended else .error .malformed

def lowSurrogate : List Char → Except Fault Nat
  | [] => .error .ended
  | '\\' :: [] => .error .ended
  | '\\' :: 'u' :: rest =>
      match hexQuad rest with
      | .ok n => if 0xdc00 ≤ n ∧ n ≤ 0xdfff then .ok n else .error .malformed
      | .error fault => .error fault
  | _ => .error .malformed

/-- The character that an escape with four digits writes, and how many
characters follow the letter.  Without `strict`, halves of characters may stand
alone. -/
def unicodeEscape (strict : Bool) (rest : List Char) : Except Fault (Char × Nat) :=
  match hexQuad rest with
  | .error fault => .error fault
  | .ok n =>
      if !strict || n < 0xd800 || 0xdfff < n then .ok (Char.ofNat n, 4)
      else if 0xdc00 ≤ n then .error .malformed
      else
        match lowSurrogate (rest.drop 4) with
        | .ok m => .ok (Char.ofNat (0x10000 + (n - 0xd800) * 0x400 + (m - 0xdc00)), 10)
        | .error fault => .error fault

/-- The character that an escape writes, and how many characters follow the
backslash. -/
def escaped (strict : Bool) : List Char → Except Fault (Char × Nat)
  | [] => .error .ended
  | '"' :: _ => .ok ('"', 1)
  | '\\' :: _ => .ok ('\\', 1)
  | '/' :: _ => .ok ('/', 1)
  | 'b' :: _ => .ok ('\x08', 1)
  | 'f' :: _ => .ok ('\x0c', 1)
  | 'n' :: _ => .ok ('\n', 1)
  | 'r' :: _ => .ok ('\r', 1)
  | 't' :: _ => .ok ('\t', 1)
  | 'u' :: rest =>
      match unicodeEscape strict rest with
      | .ok (c, n) => .ok (c, n + 1)
      | .error fault => .error fault
  | _ => .error .malformed

/-- The character of a text that starts with `c`, and how many of the
characters after `c` belong to it. -/
def character (strict : Bool) (c : Char) (rest : List Char) : Except Fault (Char × Nat) :=
  if c = '\\' then escaped strict rest
  else if c.toNat < 0x20 then .error .malformed
  else .ok (c, 0)

def textFrom (strict : Bool) (done : List Char) :
    List Char → Except Fault (String × List Char)
  | [] => .error .ended
  | c :: rest =>
      if c = '"' then .ok (String.ofList done.reverse, rest)
      else
        match character strict c rest with
        | .ok (decoded, n) => textFrom strict (decoded :: done) (rest.drop n)
        | .error fault => .error fault
termination_by cs => cs.length
decreasing_by
  simp only [List.length_drop, List.length_cons]
  omega

def text (strict : Bool) : Reader String := do
  match textFrom strict [] (← get) with
  | .ok (value, rest) =>
      set rest
      return value
  | .error fault => throw fault

def digits : Reader (List Char) := do
  let found := (← get).takeWhile Char.isDigit
  modify (fun rest => rest.drop found.length)
  return found

def eatEither (a b : Char) : Reader Bool := do
  let next := (← get).head?
  if next = some a ∨ next = some b then
    advance
    return true
  else
    return false

/-- Digits before the point: a zero alone, or digits that start with another
one. -/
def wholePart : Reader (List Char) := do
  let found ← digits
  match found with
  | [] => unexpected
  | '0' :: _ :: _ => throw .malformed
  | found => return found

def exponent : Reader Int := do
  let negative := decide ((← get).head? = some '-')
  let _ ← eatEither '+' '-'
  let found ← digits
  if found.isEmpty then unexpected
  let value : Int := found.foldl (fun n c => n * 10 + (c.toNat - '0'.toNat)) 0
  return if negative then -value else value

def withPower (whole : Significand) (hasPoint : Bool) (fraction : List Char) : Reader Numeral := do
  let hasExponent ← eatEither 'e' 'E'
  let power ← if hasExponent then exponent else pure 0
  let value := (whole.pushFraction fraction).scale power
  if value.tooLarge then throw .malformed
  return ⟨value, !hasPoint && !hasExponent && whole.exponent == 0⟩

def number : Reader Numeral := do
  let whole := (← wholePart).foldl Significand.pushWhole ⟨0, 0⟩
  let hasPoint ← eatEither '.' '.'
  let fraction ← if hasPoint then digits else pure []
  if hasPoint && fraction.isEmpty then unexpected
  withPower whole hasPoint fraction

/-!
# Skipping values

A value whose type does not matter is skipped, with the brackets that are open on a
stack.
-/

def skipFraction : Reader Unit := do
  if ← eatEither '.' '.' then
    if (← digits).isEmpty then throw .malformed

def skipPower : Reader Unit := do
  if ← eatEither 'e' 'E' then
    let _ ← eatEither '+' '-'
    if (← digits).isEmpty then throw .malformed

/-- Skip a number after its sign.  Only its form matters, and a number cut off
by the end of the text is malformed. -/
def skipNumber : Reader Unit := do
  match ← digits with
  | [] => throw .malformed
  | '0' :: _ :: _ => throw .malformed
  | _ =>
      skipFraction
      skipPower

def skipScalar : Reader Unit := do
  match ← peek? with
  | some 'n' => word ['n', 'u', 'l', 'l']
  | some 't' => word ['t', 'r', 'u', 'e']
  | some 'f' => word ['f', 'a', 'l', 's', 'e']
  | some '"' => do
      advance
      let _ ← text false
  | some '-' => do
      advance
      skipNumber
  | some c => if c.isDigit then skipNumber else unexpected
  | none => unexpected

def skipKey : Reader Unit := do
  expect '"'
  let _ ← text false
  expect ':'

mutual

/-- Skip a value inside brackets, the innermost first; braces are true. -/
def skipInside : Nat → List Bool → Reader Unit
  | 0, _ => unexpected
  | n + 1, brackets => do
      match ← peek? with
      | some '[' => do
          advance
          if (← peek?) = some ']' then
            advance
            closeInside n brackets
          else
            skipInside n (false :: brackets)
      | some '\x7b' => do
          advance
          if (← peek?) = some '\x7d' then
            advance
            closeInside n brackets
          else
            skipKey
            skipInside n (true :: brackets)
      | _ => do
          skipScalar
          closeInside n brackets

def closeInside : Nat → List Bool → Reader Unit
  | 0, _ => unexpected
  | _ + 1, [] => return ()
  | n + 1, inObject :: brackets => do
      match ← peek? with
      | some ',' => do
          advance
          if inObject then skipKey
          skipInside n (inObject :: brackets)
      | some c =>
          if c = (if inObject then '\x7d' else ']') then do
            advance
            closeInside n brackets
          else
            unexpected
      | none => unexpected

end

def skip : Reader Unit := do
  skipInside (2 * (← get).length + 2) []

/-- There is a value of another type than the one asked for.  A value that is
not in brackets has to be JSON. -/
def mismatch {α : Type} : Reader α := do
  match ← peek? with
  | some '[' | some '\x7b' => throw .mismatched
  | some '"' =>
      advance
      let _ ← text true
      throw .mismatched
  | some '-' =>
      advance
      let _ ← number
      throw .mismatched
  | some c =>
      if c.isDigit then
        let _ ← number
        throw .mismatched
      else
        skipScalar
        throw .mismatched
  | none => unexpected

def bool : Reader Bool := do
  match ← peek? with
  | some 't' =>
      word ['t', 'r', 'u', 'e']
      return true
  | some 'f' =>
      word ['f', 'a', 'l', 's', 'e']
      return false
  | _ => mismatch

def string : Reader String := do
  match ← peek? with
  | some '"' =>
      advance
      text true
  | _ => mismatch

def natural (bound : Nat) : Reader Nat := do
  match ← peek? with
  | some '-' =>
      advance
      let _ ← number
      throw .mismatched
  | some c =>
      if c.isDigit then
        match (← number).natural? with
        | some n => if n < bound then return n else throw .mismatched
        | none => throw .mismatched
      else
        mismatch
  | none => mismatch

def hasItem (first : Bool) : Reader Bool := do
  match ← peek? with
  | some ']' => return false
  | some ',' =>
      if first then return true
      advance
      match ← peek? with
      | some ']' | none => unexpected
      | some _ => return true
  | some _ => if first then return true else unexpected
  | none => unexpected

def key? (first : Bool) : Reader (Option String) := do
  match ← peek? with
  | some '\x7d' => return none
  | some c =>
      if !first then
        if c = ',' then advance else unexpected
      expect '"'
      return some (← text true)
  | none => unexpected

def itemsLoop {α : Type} (item : Reader α) (done : List α) : Nat → Reader (List α)
  | 0 => unexpected
  | n + 1 => do
      if ← hasItem done.isEmpty then
        itemsLoop item ((← item) :: done) n
      else
        advance
        return done.reverse

def list {α : Type} (item : Reader α) : Reader (List α) := do
  match ← peek? with
  | some '[' =>
      advance
      itemsLoop item [] ((← get).length + 1)
  | _ => mismatch

def membersLoop {α : Type} (member : α → String → Reader α) (first : Bool) (done : α) :
    Nat → Reader α
  | 0 => unexpected
  | n + 1 => do
      match ← key? first with
      | some key => membersLoop member false (← member done key) n
      | none =>
          advance
          return done

def members {α : Type} (member : α → String → Reader α) (start : α) : Reader α := do
  membersLoop member true start ((← get).length + 1)

def object {α : Type} (member : α → String → Reader α) (start : α) : Reader α := do
  match ← peek? with
  | some '\x7b' =>
      advance
      members member start
  | _ => mismatch

def run {α : Type} (reader : Reader α) (source : String) : Except Fault α :=
  match reader source.toList with
  | .ok (value, rest) =>
      if rest.all isBlank then .ok value else .error .malformed
  | .error fault => .error fault

end Reader
end Json
end ScriptBundler
