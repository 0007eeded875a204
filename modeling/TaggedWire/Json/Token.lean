import TaggedWire.Number.BinaryFormat
import TaggedWire.Text.HexDigit

/-!
The tokens of JSON text that values are made of: strings and numbers, with the blanks around them.
Every reader takes its token from the front of the text and returns what follows.
-/
namespace TaggedWire.Json

def isSpace (c : Char) : Bool :=
  c == ' ' || c == '\t' || c == '\n' || c == '\r'

def skipSpace (cs : List Char) : List Char :=
  cs.dropWhile isSpace

/-- What follows the given text, if the input starts with it. -/
def after? : List Char → List Char → Option (List Char)
  | [], cs => some cs
  | _ :: _, [] => none
  | w :: ws, c :: cs => if w = c then after? ws cs else none

/-- What follows a mark that blanks may precede. -/
def mark? (c : Char) (cs : List Char) : Option (List Char) :=
  after? [c] (skipSpace cs)

def isHighSurrogate (n : Nat) : Bool :=
  0xD800 ≤ n && n ≤ 0xDBFF

def isLowSurrogate (n : Nat) : Bool :=
  0xDC00 ≤ n && n ≤ 0xDFFF

/-- The character of an escape of one letter. -/
def simpleEscape? : Char → Option Char
  | '"' => some '"'
  | '\\' => some '\\'
  | '/' => some '/'
  | 'b' => some (Char.ofNat 8)
  | 'f' => some (Char.ofNat 12)
  | 'n' => some '\n'
  | 'r' => some '\r'
  | 't' => some '\t'
  | _ => none

/-- The rest of a string after its opening quote. Control characters must be escaped, and surrogates
must come in pairs; `done` holds the characters before, last one first. -/
def stringTail? (done : List Char) : List Char → Option (String × List Char)
  | [] => none
  | '"' :: rest => some (String.ofList done.reverse, rest)
  | '\\' :: 'u' :: a :: b :: c :: d :: rest =>
    match hexNumber? [a, b, c, d] with
    | none => none
    | some high =>
      if isLowSurrogate high then none
      else if isHighSurrogate high then
        match rest with
        | '\\' :: 'u' :: e :: f :: g :: h :: rest =>
          match hexNumber? [e, f, g, h] with
          | none => none
          | some low =>
            if isLowSurrogate low then
              let n := 0x10000 + (high - 0xD800) * 0x400 + (low - 0xDC00)
              stringTail? (Char.ofNat n :: done) rest
            else none
        | _ => none
      else stringTail? (Char.ofNat high :: done) rest
  | '\\' :: c :: rest =>
    match simpleEscape? c with
    | some e => stringTail? (e :: done) rest
    | none => none
  | c :: rest => if c.toNat < 0x20 || c == '\\' then none else stringTail? (c :: done) rest

def string? (cs : List Char) : Option (String × List Char) :=
  (mark? '"' cs).bind (stringTail? [])

/-- A number as it is written: a whole one, or the pattern of a binary64 number. -/
inductive Number where
  | natural (n : Nat)
  | negative (n : Nat)
  | real (x : Binary64)

def maxWord : Nat := 18446744073709551615

/-- Takes digits into a significand as long as it fits in 64 bits. The digits left over come with
their count. -/
def absorb : Nat → List Char → Nat × Nat
  | n, [] => (n, 0)
  | n, c :: rest =>
    let next := n * 10 + (c.toNat - '0'.toNat)
    if next ≤ maxWord then absorb next rest else (n, rest.length + 1)

/-- Divides by powers of ten of at most 308 places, one after the other, each step rounded. -/
def scaleDown : Nat → Nat → Nat → Nat
  | 0, x, _ => x
  | fuel + 1, x, places =>
    let f := BinaryFormat.binary64
    if places ≤ 308 then f.div x (f.ofDecimal 1 places)
    else if x = 0 then 0
    else scaleDown fuel (f.div x (f.ofDecimal 1 308)) (places - 308)

/-- The number `significand * 10 ^ exponent`, by one multiplication or by divisions of rounded
numbers. The result can differ from the nearest number in its last place. There is none beyond the
largest finite number. -/
def real? (negative : Bool) (significand : Nat) (exponent : Int) : Option Number :=
  let f := BinaryFormat.binary64
  let x := f.nearest significand 1
  let magnitude :=
    if exponent < 0 then scaleDown 8 x (-exponent).toNat
    else if exponent ≤ 308 then f.mul x (f.ofDecimal 1 exponent)
    else if x = 0 then 0
    else f.infinity
  if magnitude < f.infinity then some (.real ⟨UInt64.ofNat (f.signed negative magnitude)⟩) else none

/-- An exponent after its letter. One too large for 31 bits makes a zero or a failure. -/
def exponent? (negative : Bool) (significand : Nat) (start : Int) (cs : List Char) :
    Option (Number × List Char) :=
  let (down, cs) := match cs with
    | '+' :: rest => (false, rest)
    | '-' :: rest => (true, rest)
    | cs => (false, cs)
  match cs.span Char.isDigit with
  | ([], _) => none
  | (ds, rest) =>
    let n := ds.foldl (fun n c => n * 10 + (c.toNat - '0'.toNat)) 0
    if 2147483647 < n then
      if significand ≠ 0 ∧ !down then none
      else (real? negative 0 0).map (fun x => (x, rest))
    else
      (real? negative significand (if down then start - n else start + n)).map
        (fun x => (x, rest))

/-- A fraction after its point, and the exponent that may follow. -/
def fraction? (negative : Bool) (significand : Nat) (start : Int) (cs : List Char) :
    Option (Number × List Char) :=
  match cs.span Char.isDigit with
  | ([], _) => none
  | (ds, rest) =>
    let (significand, left) := absorb significand ds
    let places := ds.length - left
    match rest with
    | 'e' :: rest | 'E' :: rest => exponent? negative significand (start - places) rest
    | rest => (real? negative significand (start - places)).map (fun x => (x, rest))

/-- A whole number that no point or exponent follows. Minus zero and what does not fit in 64 bits is
a real number. -/
def whole? (negative : Bool) (significand left : Nat) : Option Number :=
  if left ≠ 0 then real? negative significand left
  else if !negative then some (.natural significand)
  else if significand = 0 ∨ 9223372036854775808 < significand then real? true significand 0
  else some (.negative significand)

/-- A number after its sign. It has no needless zero in front. -/
def unsigned? (negative : Bool) (cs : List Char) : Option (Number × List Char) :=
  match cs.span Char.isDigit with
  | ([], _) => none
  | ('0' :: _ :: _, _) => none
  | (ds, rest) =>
    let (significand, left) := absorb 0 ds
    match rest with
    | '.' :: rest => fraction? negative significand left rest
    | 'e' :: rest | 'E' :: rest => exponent? negative significand left rest
    | rest => (whole? negative significand left).map (fun x => (x, rest))

def number? (cs : List Char) : Option (Number × List Char) :=
  match skipSpace cs with
  | '-' :: rest => unsigned? true rest
  | rest => unsigned? false rest

end TaggedWire.Json
