import ScriptBundler.Text.Decimal

/-!
# JSON

Values, and how they are written to configuration files, to the cache and to
standard output.
-/

namespace ScriptBundler

inductive Json where
  | null
  | bool (value : Bool)
  | number (value : Nat)
  /-- Any other number: digits with a sign before a power of ten. -/
  | scaled (negative : Bool) (digits : Nat) (exponent : Int)
  | string (value : String)
  | array (items : List Json)
  | object (members : List (String × Json))

namespace Json

def hexPair (n : Nat) : List Char :=
  [Nat.digitChar (n / 16), Nat.digitChar (n % 16)]

/-- A character inside quotes.  Quotes, backslashes and control characters are
escaped, everything else stands for itself. -/
def escape (c : Char) : List Char :=
  if c = '"' then ['\\', '"']
  else if c = '\\' then ['\\', '\\']
  else if c = '\x08' then ['\\', 'b']
  else if c = '\x0c' then ['\\', 'f']
  else if c = '\n' then ['\\', 'n']
  else if c = '\r' then ['\\', 'r']
  else if c = '\t' then ['\\', 't']
  else if c.toNat < 0x20 then ['\\', 'u', '0', '0'] ++ hexPair c.toNat
  else [c]

def quote (text : String) : String :=
  "\"" ++ String.ofList (text.toList.flatMap escape) ++ "\""

def boolText (value : Bool) : String :=
  if value then "true" else "false"

def signText (negative : Bool) : String :=
  if negative then "-" else ""

def scaledText (negative : Bool) (digits : Nat) (exponent : Int) : String :=
  signText negative ++ Text.decimal digits ++ "e" ++ signText (decide (exponent < 0)) ++
    Text.decimal exponent.natAbs

mutual

def compact : Json → String
  | .null => "null"
  | .bool value => boolText value
  | .number value => Text.decimal value
  | .scaled negative digits exponent => scaledText negative digits exponent
  | .string value => quote value
  | .array items => "[" ++ ",".intercalate (compactItems items) ++ "]"
  | .object members => "\x7b" ++ ",".intercalate (compactMembers members) ++ "\x7d"

def compactItems : List Json → List String
  | [] => []
  | item :: rest => item.compact :: compactItems rest

def compactMembers : List (String × Json) → List String
  | [] => []
  | (key, value) :: rest => (quote key ++ ":" ++ value.compact) :: compactMembers rest

end

def newLine (depth : Nat) : String :=
  "\n" ++ Text.blanks (2 * depth)

def bracketed (opening closing : String) (depth : Nat) (lines : List String) : String :=
  if lines.isEmpty then opening ++ closing
  else
    opening ++ newLine (depth + 1) ++ ("," ++ newLine (depth + 1)).intercalate lines ++
      newLine depth ++ closing

mutual

def prettyAt (depth : Nat) : Json → String
  | .null => "null"
  | .bool value => boolText value
  | .number value => Text.decimal value
  | .scaled negative digits exponent => scaledText negative digits exponent
  | .string value => quote value
  | .array items => bracketed "[" "]" depth (prettyItems (depth + 1) items)
  | .object members => bracketed "\x7b" "\x7d" depth (prettyMembers (depth + 1) members)

def prettyItems (depth : Nat) : List Json → List String
  | [] => []
  | item :: rest => item.prettyAt depth :: prettyItems depth rest

def prettyMembers (depth : Nat) : List (String × Json) → List String
  | [] => []
  | (key, value) :: rest =>
      (quote key ++ ": " ++ value.prettyAt depth) :: prettyMembers depth rest

end

def pretty (value : Json) : String :=
  value.prettyAt 0

def strings (items : List String) : Json :=
  .array (items.map .string)

end Json
end ScriptBundler
