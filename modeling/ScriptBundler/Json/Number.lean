/-!
# Numbers in JSON

The digits of a number are read as far as they fit into 64 bits.  A number that
is no whole number of 64 bits stands for a floating-point number near it, and
there is a largest one.
-/

namespace ScriptBundler
namespace Json

/-- Round to 53 binary digits, a half to the even neighbour. -/
def roundBinary (n : Nat) : Nat :=
  let shift := n.log2 - 52
  let unit := Nat.pow 2 shift
  let quotient := n / unit
  let twice := 2 * (n % unit)
  if twice < unit then quotient * unit
  else if unit < twice then (quotient + 1) * unit
  else if quotient % 2 = 0 then quotient * unit
  else (quotient + 1) * unit

/-- A number times a power of ten.  Both are rounded before they are
multiplied. -/
def scaleUp (n power : Nat) : Nat :=
  roundBinary (roundBinary n * roundBinary (Nat.pow 10 power))

def wordBound : Nat :=
  Nat.pow 2 64

/-- The digits of a number as far as they fit into 64 bits, and the power of
ten that stands for the others. -/
structure Significand where
  digits : Nat
  exponent : Int
deriving DecidableEq, Repr

namespace Significand

/-- One more digit before the point.  After a digit that does not fit, every
digit counts as a zero. -/
def pushWhole (s : Significand) (c : Char) : Significand :=
  let next := s.digits * 10 + (c.toNat - '0'.toNat)
  if s.exponent = 0 ∧ next < wordBound then ⟨next, 0⟩ else ⟨s.digits, s.exponent + 1⟩

/-- Digits behind the point, up to the first one that does not fit. -/
def pushFraction (s : Significand) : List Char → Significand
  | [] => s
  | c :: rest =>
      let next := s.digits * 10 + (c.toNat - '0'.toNat)
      if next < wordBound then pushFraction ⟨next, s.exponent - 1⟩ rest else s

def scale (s : Significand) (power : Int) : Significand :=
  { s with exponent := s.exponent + power }

def tooLarge (s : Significand) : Bool :=
  if s.digits = 0 then false
  else if s.exponent < 0 then false
  else if 308 < s.exponent then true
  else decide (Nat.pow 2 1024 ≤ scaleUp s.digits s.exponent.toNat)

end Significand

structure Numeral where
  value : Significand
  /-- It has neither fraction nor exponent, and fits into 64 bits. -/
  isWhole : Bool
deriving DecidableEq, Repr

namespace Numeral

def natural? (n : Numeral) : Option Nat :=
  if n.isWhole then some n.value.digits else none

end Numeral
end Json
end ScriptBundler
