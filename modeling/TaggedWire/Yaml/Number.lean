import TaggedWire.Number.Decimal
import TaggedWire.Text.HexDigit

/-!
Numbers of YAML text: integers in four bases, and real numbers with a point, an exponent or a word
for what is not finite.
-/
namespace TaggedWire.Yaml

attribute [local instance (high)] instPowNat

inductive Number where
  | natural (n : Nat)
  /-- The number `-n`, for a positive `n`. -/
  | negative (n : Nat)
  | real (x : Binary64)

namespace Number

/-- Equality of numbers. An integer differs from every real number, and all NaN are one. -/
def same : Number → Number → Bool
  | natural a, natural b => a == b
  | negative a, negative b => a == b
  | real a, real b =>
    match a.datum, b.datum with
    | .nan, .nan => true
    | _, _ => BinaryFormat.binary64.sameNumber a.bits.toNat b.bits.toNat
  | _, _ => false

/-- The text of a real number. Of two decimals that are equally near the one with an even last digit
is taken. -/
def realText (x : Binary64) : String :=
  match x.datum with
  | .nan => ".nan"
  | .infinite minus => if minus then "-.inf" else ".inf"
  | .finite minus significand exponent =>
    let magnitude :=
      if significand = 0 then "0.0"
      else (Decimal.shortest .binary64 .even significand exponent).compact
    if minus then "-" ++ magnitude else magnitude

def text : Number → String
  | natural n => toString n
  | negative n => "-" ++ toString n
  | real x => realText x

/-- The number of a string of digits, which is not empty. -/
def digits? (base : Nat) (cs : List Char) : Option Nat :=
  if cs.isEmpty then none
  else cs.foldlM (fun n c =>
    (hexDigit? c).bind (fun d => if d < base then some (n * base + d) else none)) 0

/-- Base and digits of a number without its sign. -/
def splitBase : List Char → Nat × List Char
  | '0' :: 'x' :: rest => (16, rest)
  | '0' :: 'o' :: rest => (8, rest)
  | '0' :: 'b' :: rest => (2, rest)
  | cs => (10, cs)

/-- A zero with digits after it. -/
def hasLeadingZero : List Char → Bool
  | '0' :: rest => !rest.isEmpty && rest.all Char.isDigit
  | _ => false

/-- The number without sign. Digits after a leading zero make none. -/
def magnitude? (cs : List Char) : Option Nat :=
  if hasLeadingZero cs then none
  else
    let (base, ds) := splitBase cs
    digits? base ds

/-- Whether the text has a minus in front, and what follows a sign of either kind. -/
def splitSign : List Char → Bool × List Char
  | '-' :: rest => (true, rest)
  | '+' :: rest => (false, rest)
  | cs => (false, cs)

/-- What the text of an integer gives. -/
inductive Integer where
  | number (n : Number)
  /-- The integer needs more than 64 bits, but not more than 128. -/
  | wide
  | none

/-- Reads an integer. What needs more than 128 bits is left to the real numbers. -/
def integer (cs : List Char) : Integer :=
  let (minus, rest) := splitSign cs
  match magnitude? rest with
  | Option.none => .none
  | some n =>
    if minus then
      if n = 0 then .number (.natural 0)
      else if n ≤ 2 ^ (63 : Nat) then .number (.negative n)
      else if n ≤ 2 ^ (127 : Nat) then .wide
      else .none
    else if n < 2 ^ (64 : Nat) then .number (.natural n)
    else if n < 2 ^ (128 : Nat) then .wide
    else .none

/-- The value of an exponent, with its mark; no exponent is zero. -/
def exponent? : List Char → Option Int
  | [] => some 0
  | c :: rest =>
    if c == 'e' || c == 'E' then
      let (minus, ds) := splitSign rest
      if ds.all Char.isDigit then
        (digits? 10 ds).map (fun n => if minus then -(n : Int) else n)
      else none
    else none

/-- The bits of digits with a point and an exponent. -/
def decimal? (cs : List Char) : Option Nat := do
  let whole := cs.takeWhile Char.isDigit
  let rest := cs.dropWhile Char.isDigit
  let point := rest.head? == some '.'
  let rest := if point then rest.drop 1 else rest
  let part := if point then rest.takeWhile Char.isDigit else []
  let exponent ← exponent? (if point then rest.dropWhile Char.isDigit else rest)
  let digits ← digits? 10 (whole ++ part)
  return BinaryFormat.binary64.ofDecimal digits (exponent - part.length)

/-- The real number of a text. A number too large for the format makes none. -/
def real? (cs : List Char) : Option Binary64 :=
  let word := String.ofList cs
  let unsigned := if word.startsWith "+" then String.ofList (cs.drop 1) else word
  let infinity := BinaryFormat.binary64.infinity
  if [".inf", ".Inf", ".INF"].contains unsigned then some ⟨infinity.toUInt64⟩
  else if ["-.inf", "-.Inf", "-.INF"].contains word then
    some ⟨(BinaryFormat.binary64.signed true infinity).toUInt64⟩
  else if [".nan", ".NaN", ".NAN"].contains word then some ⟨0x7FF8000000000000⟩
  else
    let (minus, rest) := splitSign cs
    match decimal? rest with
    | some bits =>
      if bits < infinity then some ⟨(BinaryFormat.binary64.signed minus bits).toUInt64⟩
      else none
    | none => none

end Number

end TaggedWire.Yaml
