import TaggedWire.Number.BinaryFormat

/-!
Decimal text of binary numbers: the fewest digits that read back as the same number, and of those
the digits nearest to it.
-/
namespace TaggedWire

attribute [local instance (high)] instPowNat

/-- The number `digits * 10 ^ exponent`. -/
structure Decimal where
  digits : Nat
  exponent : Int
  deriving DecidableEq

/-- Which of two equally near decimals is taken. -/
inductive Tie where
  | up
  | even

namespace Decimal

/-- The fractions that round to one binary number, over a common denominator. The ends belong to it
when `closed` holds. -/
structure Interval where
  low : Nat
  mid : Nat
  high : Nat
  den : Nat
  closed : Bool

namespace Interval

/-- The interval of `significand * 2 ^ exponent` units. Below a power of two the neighbours are
half as far apart. -/
def of (f : BinaryFormat) (significand exponent : Nat) : Interval :=
  let below := if significand = 2 ^ f.fractionBits ∧ 0 < exponent then 1 else 2
  { low := (4 * significand - below) * 2 ^ exponent
    mid := 4 * significand * 2 ^ exponent
    high := (4 * significand + 2) * 2 ^ exponent
    den := 4 * 2 ^ f.scale
    closed := significand % 2 == 0 }

/-- The same interval counted in units of `10 ^ p`. -/
def inUnits (i : Interval) (p : Int) : Interval :=
  if 0 ≤ p then { i with den := i.den * 10 ^ p.toNat }
  else
    let m := 10 ^ (-p).toNat
    { i with low := i.low * m, mid := i.mid * m, high := i.high * m }

def contains (i : Interval) (d : Nat) : Bool :=
  if i.closed then i.low ≤ d * i.den && d * i.den ≤ i.high
  else i.low < d * i.den && d * i.den < i.high

/-- The integer of the interval nearest to its middle, if it holds one of the two next to it. -/
def integer? (i : Interval) (tie : Tie) : Option Nat :=
  let d := i.mid / i.den
  let r := 2 * (i.mid % i.den)
  match i.contains d, i.contains (d + 1) with
  | true, false => some d
  | false, true => some (d + 1)
  | false, false => none
  | true, true =>
    if r < i.den then some d
    else if i.den < r then some (d + 1)
    else match tie with
      | .up => some (d + 1)
      | .even => some (if d % 2 = 0 then d else d + 1)

end Interval

def digitCount (n : Nat) : Nat :=
  (Nat.toDigits 10 n).length

/-- The `k` with `10 ^ (k - 1) ≤ num / den < 10 ^ k`, for a positive fraction. -/
def magnitude (num den : Nat) : Int :=
  if den ≤ num then digitCount (num / den)
  else 1 - (digitCount ((den + num - 1) / num - 1) : Int)

/-- Moves the zeros at the end of the digits into the exponent. -/
def trimZeros : Nat → Decimal → Decimal
  | 0, x => x
  | fuel + 1, x =>
    if x.digits ≠ 0 ∧ x.digits % 10 = 0 then trimZeros fuel ⟨x.digits / 10, x.exponent + 1⟩ else x

/-- The fewest digits that read back as `significand * 2 ^ exponent` units of the format.
Seventeen digits always do. -/
def shortest (f : BinaryFormat) (tie : Tie) (significand exponent : Nat) : Decimal :=
  let i := Interval.of f significand exponent
  let k := magnitude i.mid i.den
  let found := (List.range 17).findSome? fun n =>
    let p := k - (n + 1 : Nat)
    ((i.inUnits p).integer? tie).map (fun d => Decimal.mk d p)
  match found with
  | some x => trimZeros (digitCount x.digits) x
  | none => ⟨0, 0⟩

/-- All digits written out, with a point where one is needed and never an exponent. -/
def positional (x : Decimal) : String :=
  let ds := Nat.toDigits 10 x.digits
  if 0 ≤ x.exponent then String.ofList (ds ++ List.replicate x.exponent.toNat '0')
  else
    let places := (-x.exponent).toNat
    if places < ds.length then
      String.ofList (ds.take (ds.length - places) ++ '.' :: ds.drop (ds.length - places))
    else String.ofList ('0' :: '.' :: (List.replicate (places - ds.length) '0' ++ ds))

/-- Digits with a point up to sixteen places before it and four zeros after it; outside that range
one digit, a point, the other digits and an exponent. A whole number ends in `.0`. -/
def compact (x : Decimal) : String :=
  let ds := Nat.toDigits 10 x.digits
  let point : Int := ds.length + x.exponent
  if 0 ≤ x.exponent ∧ point ≤ 16 then x.positional ++ ".0"
  else if -5 < point ∧ point ≤ 16 then x.positional
  else
    let mantissa := match ds with
      | d :: rest@(_ :: _) => d :: '.' :: rest
      | ds => ds
    String.ofList mantissa ++ "e" ++ toString (point - 1)

end Decimal

/-- The text of a number in diagnostics: all digits, `NaN`, `inf` or `-inf`; a half goes up. -/
def Datum.display (f : BinaryFormat) : Datum → String
  | .nan => "NaN"
  | .infinite negative => if negative then "-inf" else "inf"
  | .finite negative significand exponent =>
    let magnitude :=
      if significand = 0 then "0" else (Decimal.shortest f .up significand exponent).positional
    if negative then "-" ++ magnitude else magnitude

def Binary32.display (x : Binary32) : String :=
  x.datum.display .binary32

def Binary64.display (x : Binary64) : String :=
  x.datum.display .binary64

end TaggedWire
