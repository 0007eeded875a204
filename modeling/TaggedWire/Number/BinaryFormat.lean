import TaggedWire.Bytes.Word

/-!
Binary interchange formats: what a bit pattern stands for, and the bit pattern nearest to a given
fraction. All arithmetic is on natural numbers; a finite number is counted in units of its format's
least positive number.
-/
namespace TaggedWire

attribute [local instance (high)] instPowNat

structure BinaryFormat where
  /-- Stored bits of the significand. -/
  fractionBits : Nat
  exponentBits : Nat

/-- What a bit pattern stands for. A finite number is
`significand * 2 ^ exponent` units of the least positive number of its format. -/
inductive Datum where
  | nan
  | infinite (negative : Bool)
  | finite (negative : Bool) (significand exponent : Nat)
  deriving DecidableEq

namespace BinaryFormat

def binary32 : BinaryFormat := ⟨23, 8⟩

def binary64 : BinaryFormat := ⟨52, 11⟩

/-- The least positive number of the format is `2 ^ -scale`. -/
def scale (f : BinaryFormat) : Nat :=
  2 ^ (f.exponentBits - 1) + f.fractionBits - 2

/-- The pattern of positive infinity, the least one that is not finite. -/
def infinity (f : BinaryFormat) : Nat :=
  (2 ^ f.exponentBits - 1) * 2 ^ f.fractionBits

/-- The pattern of negative zero. -/
def signBit (f : BinaryFormat) : Nat :=
  2 ^ (f.fractionBits + f.exponentBits)

def datum (f : BinaryFormat) (bits : Nat) : Datum :=
  let fraction := bits % 2 ^ f.fractionBits
  let exponent := bits / 2 ^ f.fractionBits % 2 ^ f.exponentBits
  let negative := bits / f.signBit % 2 == 1
  if exponent = 2 ^ f.exponentBits - 1 then
    if fraction = 0 then .infinite negative else .nan
  else if exponent = 0 then .finite negative fraction 0
  else .finite negative (2 ^ f.fractionBits + fraction) (exponent - 1)

/-- Equality of the numbers that two patterns stand for: a NaN differs from everything, and the two
zeros are equal. -/
def sameNumber (f : BinaryFormat) (a b : Nat) : Bool :=
  match f.datum a, f.datum b with
  | .nan, _ => false
  | _, .nan => false
  | .finite _ 0 _, .finite _ 0 _ => true
  | x, y => x == y

/-- `n / d` rounded to the nearest integer, halves to the even one. -/
def divNearest (n d : Nat) : Nat :=
  let q := n / d
  let r := n % d
  if 2 * r < d ∨ (2 * r = d ∧ q % 2 = 0) then q else q + 1

/-- The pattern of the number nearest to `num / den`, halves to the even significand. What is too
large for the format is infinite. -/
def nearest (f : BinaryFormat) (num den : Nat) : Nat :=
  let units := num * 2 ^ f.scale
  let exponent := Nat.log2 (units / den) - f.fractionBits
  let significand := divNearest units (den * 2 ^ exponent)
  min (significand + exponent * 2 ^ f.fractionBits) f.infinity

/-- Numerator and denominator of the number with a finite pattern without sign. -/
def fraction (f : BinaryFormat) (bits : Nat) : Nat × Nat :=
  match f.datum bits with
  | .finite _ significand exponent => (significand * 2 ^ exponent, 2 ^ f.scale)
  | _ => (0, 1)

/-- Product of two finite numbers without sign, rounded to nearest. -/
def mul (f : BinaryFormat) (a b : Nat) : Nat :=
  let x := f.fraction a
  let y := f.fraction b
  f.nearest (x.1 * y.1) (x.2 * y.2)

/-- Quotient of two finite numbers without sign, the second not zero, rounded to nearest. -/
def div (f : BinaryFormat) (a b : Nat) : Nat :=
  let x := f.fraction a
  let y := f.fraction b
  f.nearest (x.1 * y.2) (x.2 * y.1)

/-- The pattern with the sign set if asked for. -/
def signed (f : BinaryFormat) (negative : Bool) (magnitude : Nat) : Nat :=
  if negative then f.signBit + magnitude else magnitude

/-- The pattern nearest to `digits * 10 ^ exponent`. Exponents far outside the range of the format
are settled without computing the power. -/
def ofDecimal (f : BinaryFormat) (digits : Nat) (exponent : Int) : Nat :=
  let top : Int := exponent + (Nat.toDigits 10 digits).length
  if digits = 0 ∨ top < -(f.scale : Int) then 0
  else if top > (2 ^ f.exponentBits : Nat) then f.infinity
  else if 0 ≤ exponent then f.nearest (digits * 10 ^ exponent.toNat) 1
  else f.nearest digits (10 ^ (-exponent).toNat)

end BinaryFormat

/-- The binary32 number nearest to a binary64 number; a NaN keeps none of its payload. -/
def Binary64.toBinary32 (x : Binary64) : Binary32 :=
  let f := BinaryFormat.binary32
  let g := BinaryFormat.binary64
  let bits := match g.datum x.bits.toNat with
    | .nan => f.infinity + 2 ^ (f.fractionBits - 1)
    | .infinite negative => f.signed negative f.infinity
    | .finite negative significand exponent =>
      f.signed negative (f.nearest (significand * 2 ^ exponent) (2 ^ g.scale))
  ⟨UInt32.ofNat bits⟩

def Binary32.datum (x : Binary32) : Datum :=
  BinaryFormat.binary32.datum x.bits.toNat

def Binary64.datum (x : Binary64) : Datum :=
  BinaryFormat.binary64.datum x.bits.toNat

end TaggedWire
