import Mathlib.Data.List.Basic
import ScriptBundler.Text.Utf8

/-!
# Encoding texts

Every text is read back from its bytes.  The bounds of the byte after the first
one are what keeps out overlong forms and halves of characters, and the bytes of
a character never leave them.
-/

namespace ScriptBundler
namespace Utf8

theorem lead_two {v : Nat} (hlow : 0x80 ≤ v) (hhigh : v < 0x800) :
    lead? (v / 64 % 32 + 192) = some ⟨1, 0x80, 0xbf, v / 64⟩ := by
  have hbyte : 0xc2 ≤ v / 64 % 32 + 192 ∧ v / 64 % 32 + 192 ≤ 0xdf := by omega
  have hshare : v / 64 % 32 + 192 - 0xc0 = v / 64 := by omega
  rw [lead?, if_neg (by omega), if_pos hbyte, hshare]

theorem lead_three {v : Nat} (hlow : 0x800 ≤ v) (hhigh : v < 0x10000)
    (hvalid : v < 0xd800 ∨ 0xdfff < v) :
    ∃ low high, lead? (v / 4096 % 16 + 224) = some ⟨2, low, high, v / 4096⟩ ∧
      low ≤ v / 64 % 64 + 128 ∧ v / 64 % 64 + 128 ≤ high := by
  have hshare : v / 4096 % 16 + 224 - 0xe0 = v / 4096 := by omega
  rw [lead?, if_neg (by omega), if_neg (by omega)]
  split_ifs with hfirst hhalf
  · exact ⟨0xa0, 0xbf, by rw [show v / 4096 = 0 by omega], by omega, by omega⟩
  · exact ⟨0x80, 0x9f, by rw [show v / 4096 = 0xd by omega], by omega, by omega⟩
  · exact ⟨0x80, 0xbf, by rw [hshare], by omega, by omega⟩
  all_goals omega

theorem lead_four {v : Nat} (hlow : 0x10000 ≤ v) (hhigh : v < 0x110000) :
    ∃ low high, lead? (v / 262144 % 8 + 240) = some ⟨3, low, high, v / 262144⟩ ∧
      low ≤ v / 4096 % 64 + 128 ∧ v / 4096 % 64 + 128 ≤ high := by
  have hshare : v / 262144 % 8 + 240 - 0xf0 = v / 262144 := by omega
  rw [lead?, if_neg (by omega), if_neg (by omega), if_neg (by omega), if_neg (by omega),
    if_neg (by omega)]
  split_ifs with hfirst hlast
  · exact ⟨0x90, 0xbf, by rw [show v / 262144 = 0 by omega], by omega, by omega⟩
  · exact ⟨0x80, 0x8f, by rw [show v / 262144 = 4 by omega], by omega, by omega⟩
  · exact ⟨0x80, 0xbf, by rw [hshare], by omega, by omega⟩
  all_goals omega

theorem readTails_cons {low high value n byte : Nat} {rest : List UInt8} (hbyte : byte < 256)
    (hlow : low ≤ byte) (hhigh : byte ≤ high) :
    readTails low high value (n + 1) (UInt8.ofNat byte :: rest) =
      ((readTails 0x80 0xbf (value * 64 + (byte - 0x80)) n rest).1,
        (readTails 0x80 0xbf (value * 64 + (byte - 0x80)) n rest).2 + 1) := by
  have htoNat : (UInt8.ofNat byte).toNat = byte := UInt8.toNat_ofNat_of_lt' hbyte
  rw [readTails, htoNat, if_pos ⟨hlow, hhigh⟩]

theorem readTails_bits (value v n : Nat) (rest : List UInt8) :
    readTails 0x80 0xbf value (n + 1) (UInt8.ofNat (v % 64 + 128) :: rest) =
      ((readTails 0x80 0xbf (value * 64 + v % 64) n rest).1,
        (readTails 0x80 0xbf (value * 64 + v % 64) n rest).2 + 1) := by
  have hshare : v % 64 + 128 - 0x80 = v % 64 := by omega
  rw [readTails_cons (by omega) (by omega) (by omega), hshare]

theorem readTails_zero (low high value : Nat) (rest : List UInt8) :
    readTails low high value 0 rest = (some value, 0) := by
  rw [readTails]

theorem first_of_lead {byte : Nat} (hbyte : byte < 256) {lead : Lead}
    (hlead : lead? byte = some lead) {rest : List UInt8} {c : Char} {n : Nat}
    (hread : readTails lead.low lead.high lead.value lead.tails rest = (some c.toNat, n)) :
    first (UInt8.ofNat byte) rest = (some c, n) := by
  have htoNat : (UInt8.ofNat byte).toNat = byte := UInt8.toNat_ofNat_of_lt' hbyte
  rw [first, htoNat, hlead]
  simp only [hread, Option.map_some, Char.ofNat_toNat]

theorem first_utf8EncodeChar (c : Char) (rest : List UInt8) :
    ∃ b tail, String.utf8EncodeChar c = b :: tail ∧
      first b (tail ++ rest) = (some c, tail.length) := by
  have hvalid : c.toNat < 0xd800 ∨ 0xdfff < c.toNat ∧ c.toNat < 0x110000 := c.valid
  have hval : c.val.toNat = c.toNat := rfl
  unfold String.utf8EncodeChar
  simp only [hval]
  generalize hv : c.toNat = v at hvalid ⊢
  split_ifs with h1 h2 h3
  · refine ⟨_, _, rfl, first_of_lead (by omega) (if_pos (by omega)) ?_⟩
    rw [hv]
    exact readTails_zero _ _ _ _
  · refine ⟨_, _, rfl, first_of_lead (by omega) (lead_two (by omega) (by omega)) ?_⟩
    have hpoint : v / 64 * 64 + v % 64 = v := by omega
    simp only [List.cons_append, readTails_bits, readTails_zero, hpoint, hv]
    rfl
  · rcases @lead_three v (by omega) (by omega) (by omega) with ⟨low, high, hlead, hlow, hhigh⟩
    refine ⟨_, _, rfl, first_of_lead (by omega) hlead ?_⟩
    have hshare : v / 64 % 64 + 128 - 0x80 = v / 64 % 64 := by omega
    have hpoint : (v / 4096 * 64 + v / 64 % 64) * 64 + v % 64 = v := by omega
    simp only [List.cons_append, readTails_cons (show v / 64 % 64 + 128 < 256 by omega) hlow hhigh,
      hshare, readTails_bits, readTails_zero, hpoint, hv]
    rfl
  · rcases @lead_four v (by omega) (by omega) with ⟨low, high, hlead, hlow, hhigh⟩
    refine ⟨_, _, rfl, first_of_lead (by omega) hlead ?_⟩
    have hshare : v / 4096 % 64 + 128 - 0x80 = v / 4096 % 64 := by omega
    have hpoint : ((v / 262144 * 64 + v / 4096 % 64) * 64 + v / 64 % 64) * 64 + v % 64 = v := by
      omega
    simp only [List.cons_append,
      readTails_cons (show v / 4096 % 64 + 128 < 256 by omega) hlow hhigh, hshare, readTails_bits,
      readTails_zero, hpoint, hv]
    rfl

theorem parts_flatMap (cs : List Char) :
    parts (cs.flatMap String.utf8EncodeChar) = cs.map some := by
  induction cs with
  | nil => rw [List.flatMap_nil, parts, List.map_nil]
  | cons c cs ih =>
    rcases first_utf8EncodeChar c (cs.flatMap String.utf8EncodeChar) with
      ⟨b, tail, hbytes, hfirst⟩
    rw [List.flatMap_cons, hbytes, List.cons_append, parts, hfirst]
    simp only [List.drop_left, ih, List.map_cons]

theorem decode_encode (text : String) : decode? (encode text) = some text := by
  have hall : ∀ cs : List Char, (cs.map some).mapM id = some cs := by
    intro cs
    induction cs with
    | nil => rfl
    | cons c cs ih => simp [List.mapM_cons, ih]
  rw [decode?, encode, parts_flatMap, hall, Option.map_some, String.ofList_toList]

end Utf8
end ScriptBundler
