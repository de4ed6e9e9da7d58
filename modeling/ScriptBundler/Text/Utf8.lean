/-!
# Decoding UTF-8

Bytes are cut into characters and invalid parts.  An invalid part is as long
as it can be while it still starts some character, and one byte otherwise.
Reading strictly refuses any invalid part; reading leniently puts one
replacement character for each.
-/

namespace ScriptBundler
namespace Utf8

/-- What the first byte of a character says: how many bytes follow, the bounds
of the one after it, and its own share of the code point. -/
structure Lead where
  tails : Nat
  low : Nat
  high : Nat
  value : Nat
deriving DecidableEq, Repr

def lead? (b : Nat) : Option Lead :=
  if b < 0x80 then some ⟨0, 0x80, 0xbf, b⟩
  else if 0xc2 ≤ b ∧ b ≤ 0xdf then some ⟨1, 0x80, 0xbf, b - 0xc0⟩
  else if b = 0xe0 then some ⟨2, 0xa0, 0xbf, 0⟩
  else if b = 0xed then some ⟨2, 0x80, 0x9f, 0xd⟩
  else if 0xe1 ≤ b ∧ b ≤ 0xef then some ⟨2, 0x80, 0xbf, b - 0xe0⟩
  else if b = 0xf0 then some ⟨3, 0x90, 0xbf, 0⟩
  else if b = 0xf4 then some ⟨3, 0x80, 0x8f, 4⟩
  else if 0xf1 ≤ b ∧ b ≤ 0xf3 then some ⟨3, 0x80, 0xbf, b - 0xf0⟩
  else none

/-- Read the bytes after the first one.  Gives the code point, if all of them
fit, and the number of bytes that fit. -/
def readTails (low high value : Nat) : Nat → List UInt8 → Option Nat × Nat
  | 0, _ => (some value, 0)
  | _ + 1, [] => (none, 0)
  | n + 1, b :: rest =>
      if low ≤ b.toNat ∧ b.toNat ≤ high then
        let (point, used) := readTails 0x80 0xbf (value * 64 + (b.toNat - 0x80)) n rest
        (point, used + 1)
      else (none, 0)

/-- The character that starts with a byte, or `none` for an invalid part, and
how many of the bytes after it belong to the same part. -/
def first (b : UInt8) (rest : List UInt8) : Option Char × Nat :=
  match lead? b.toNat with
  | none => (none, 0)
  | some lead =>
      let (point, used) := readTails lead.low lead.high lead.value lead.tails rest
      (point.map Char.ofNat, used)

/-- Characters and invalid parts. -/
def parts : List UInt8 → List (Option Char)
  | [] => []
  | b :: rest =>
      let (c, n) := first b rest
      c :: parts (rest.drop n)
termination_by bs => bs.length
decreasing_by
  simp only [List.length_drop, List.length_cons]
  omega

def replacement : Char :=
  '�'

def decodeLossy (bytes : List UInt8) : String :=
  String.ofList ((parts bytes).map (fun c => c.getD replacement))

def decode? (bytes : List UInt8) : Option String :=
  ((parts bytes).mapM id).map String.ofList

def encode (text : String) : List UInt8 :=
  text.toList.flatMap String.utf8EncodeChar

end Utf8
end ScriptBundler
