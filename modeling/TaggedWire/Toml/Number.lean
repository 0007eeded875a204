import TaggedWire.Number.BinaryFormat
import TaggedWire.Toml.Item
import TaggedWire.Toml.Text

/-!
Numbers and dates of TOML text. Integers have 64 bits with sign and come in four bases; an
underscore may stand between two digits.
-/
namespace TaggedWire.Toml

/-- Digits that may follow a first one, each alone or after an underscore. -/
def moreDigits (isDigit : Char → Bool) : List Char → List Char × List Char
  | [] => ([], [])
  | [c] => if isDigit c then ([c], []) else ([], [c])
  | c :: d :: rest =>
    if isDigit c then
      let (ds, rest) := moreDigits isDigit (d :: rest)
      (c :: ds, rest)
    else if c = '_' ∧ isDigit d = true then
      let (ds, rest) := moreDigits isDigit rest
      (d :: ds, rest)
    else ([], c :: d :: rest)

/-- One digit and those that follow it, without the underscores. -/
def digits? (isDigit : Char → Bool) : List Char → Option (List Char × List Char)
  | [] => none
  | c :: rest =>
    if isDigit c then
      let (ds, rest) := moreDigits isDigit rest
      some (c :: ds, rest)
    else none

def sign (cs : List Char) : Bool × List Char :=
  match cs with
  | '+' :: rest => (false, rest)
  | '-' :: rest => (true, rest)
  | cs => (false, cs)

/-- The digits of a decimal integer after its sign. A zero in front stands alone. -/
def decimal? : List Char → Option (List Char × List Char)
  | '0' :: rest => some (['0'], rest)
  | cs => digits? Char.isDigit cs

def value (base : Nat) (ds : List Char) : Nat :=
  ds.foldl (fun n c => n * base + (hexDigit? c).getD 0) 0

/-- An integer in the range of 64 bits with sign. -/
def inRange? (n : Int) : Option Item :=
  if -9223372036854775808 ≤ n ∧ n ≤ 9223372036854775807 then some (.integer n) else none

def isBaseDigit (base : Nat) (c : Char) : Bool :=
  match hexDigit? c with
  | some d => d < base
  | none => false

def based? (base : Nat) (cs : List Char) : Option (Item × List Char) := do
  let (ds, rest) ← digits? (isBaseDigit base) cs
  return (← inRange? (value base ds), rest)

def integer? (cs : List Char) : Option (Item × List Char) :=
  match cs with
  | '0' :: 'x' :: rest => based? 16 rest
  | '0' :: 'o' :: rest => based? 8 rest
  | '0' :: 'b' :: rest => based? 2 rest
  | cs => do
    let (negative, cs) := sign cs
    let (ds, rest) ← decimal? cs
    let n : Int := value 10 ds
    return (← inRange? (if negative then -n else n), rest)

/-- The exponent part: its value and what follows. -/
def exponent? : List Char → Option (Int × List Char)
  | 'e' :: cs | 'E' :: cs => do
    let (negative, cs) := sign cs
    let (ds, rest) ← digits? Char.isDigit cs
    let n : Int := value 10 ds
    return (if negative then -n else n, rest)
  | _ => none

/-- A number with a fraction or an exponent. It must not round to positive infinity. -/
def float? (cs : List Char) : Option (Item × List Char) := do
  let (negative, cs) := sign cs
  let finish (ds : List Char) (exponent : Int) (rest : List Char) : Option (Item × List Char) :=
    let f := BinaryFormat.binary64
    if !negative ∧ f.ofDecimal (value 10 ds) exponent = f.infinity then none
    else some (.float, rest)
  match cs with
  | 'i' :: 'n' :: 'f' :: rest => return (.float, rest)
  | 'n' :: 'a' :: 'n' :: rest => return (.float, rest)
  | cs =>
    let (whole, cs) ← decimal? cs
    match cs with
    | '.' :: cs =>
      let (part, rest) ← digits? Char.isDigit cs
      let (e, rest) := (exponent? rest).getD (0, rest)
      finish (whole ++ part) (e - part.length) rest
    | cs =>
      let (e, rest) ← exponent? cs
      finish whole e rest

/-- Exactly `n` digits whose value lies in a range. -/
def fixedDigits? (n low high : Nat) (cs : List Char) : Option (Nat × List Char) :=
  let ds := cs.take n
  if ds.length = n ∧ ds.all Char.isDigit then
    let v := value 10 ds
    if low ≤ v ∧ v ≤ high then some (v, cs.drop n) else none
  else none

def char? (c : Char) : List Char → Option (List Char)
  | d :: rest => if c = d then some rest else none
  | [] => none

def daysInMonth (year month : Nat) : Nat :=
  if month = 2 then
    if year % 4 = 0 ∧ (year % 100 ≠ 0 ∨ year % 400 = 0) then 29 else 28
  else if month = 4 ∨ month = 6 ∨ month = 9 ∨ month = 11 then 30
  else 31

/-- What follows a calendar date. -/
def fullDate? (cs : List Char) : Option (List Char) := do
  let (year, cs) ← fixedDigits? 4 0 9999 cs
  let (month, cs) ← fixedDigits? 2 1 12 (← char? '-' cs)
  let (_, cs) ← fixedDigits? 2 1 (daysInMonth year month) (← char? '-' cs)
  return cs

/-- What follows a time of day. A leap second is allowed. -/
def timeOfDay? (cs : List Char) : Option (List Char) := do
  let (_, cs) ← fixedDigits? 2 0 23 cs
  let (_, cs) ← fixedDigits? 2 0 59 (← char? ':' cs)
  let (_, cs) ← fixedDigits? 2 0 60 (← char? ':' cs)
  match cs with
  | '.' :: rest =>
    match rest.span Char.isDigit with
    | ([], _) => return cs
    | (_, rest) => return rest
  | cs => return cs

/-- What follows the distance from universal time. -/
def timeOffset? (cs : List Char) : Option (List Char) :=
  match cs with
  | 'Z' :: rest | 'z' :: rest => some rest
  | '+' :: rest | '-' :: rest => do
    let (_, cs) ← fixedDigits? 2 0 23 rest
    let (_, cs) ← fixedDigits? 2 0 59 (← char? ':' cs)
    return cs
  | _ => none

/-- The time that may follow a date, after a letter or a blank. -/
def timePart? : List Char → Option (List Char)
  | 'T' :: cs | 't' :: cs | ' ' :: cs => do
    let cs ← timeOfDay? cs
    return (timeOffset? cs).getD cs
  | _ => none

/-- A date, a time, or both. -/
def date? (cs : List Char) : Option (Item × List Char) :=
  match fullDate? cs with
  | some cs => some (.date, (timePart? cs).getD cs)
  | none => (timeOfDay? cs).map (fun rest => (.date, rest))

/-- A date or a number. -/
def scalarNumber? (cs : List Char) : Option (Item × List Char) :=
  date? cs <|> float? cs <|> integer? cs

end TaggedWire.Toml
