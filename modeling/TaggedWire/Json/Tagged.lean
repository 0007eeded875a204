import TaggedWire.Json.Token
import TaggedWire.Value

/-!
Kinds and values in JSON. A kind is its name; a value is an object whose only key is the name of its
kind, capitalised.
-/
namespace TaggedWire

namespace Json

/-- The text has nothing but blanks left. -/
def ends (cs : List Char) : Bool :=
  (skipSpace cs).isEmpty

/-- An object with one entry: its key, and what `entry` reads after the colon. -/
def single? (entry : String → List Char → Option (α × List Char)) (cs : List Char) :
    Option (α × List Char) := do
  let cs ← mark? '\x7b' cs
  let (key, cs) ← string? cs
  let cs ← mark? ':' cs
  let (a, cs) ← entry key cs
  let cs ← mark? '\x7d' cs
  return (a, cs)

end Json

namespace Kind

/-- The key of a value of this kind in JSON. -/
def jsonKey : Kind → String
  | bool => "Bool"
  | uint8 => "Uint8"
  | uint16 => "Uint16"
  | uint32 => "Uint32"
  | uint64 => "Uint64"
  | float32 => "Float32"
  | float64 => "Float64"

def ofJsonKey? (s : String) : Option Kind :=
  all.find? (fun k => k.jsonKey == s)

def toJson (k : Kind) : String :=
  "\"" ++ k.name ++ "\""

/-- Reads a kind: its name as a string, or as the key of an object with null in it. -/
def ofJson? (text : String) : Option Kind := do
  let cs := text.toList
  let bare := do
    let (name, cs) ← Json.string? cs
    return (← ofName? name, cs)
  let entry (key : String) (cs : List Char) : Option (Kind × List Char) := do
    let k ← ofName? key
    return (k, ← Json.after? "null".toList (Json.skipSpace cs))
  let (k, rest) ← bare <|> Json.single? entry cs
  if Json.ends rest then some k else none

end Kind

namespace Value

/-- A boolean word. -/
def jsonBool? (cs : List Char) : Option (Bool × List Char) :=
  let cs := Json.skipSpace cs
  ((Json.after? "true".toList cs).map (fun rest => (true, rest))) <|>
    ((Json.after? "false".toList cs).map (fun rest => (false, rest)))

/-- A whole number below the bound. -/
def jsonNatural? (bound : Nat) (cs : List Char) : Option (Nat × List Char) :=
  match Json.number? cs with
  | some (.natural n, rest) => if n < bound then some (n, rest) else none
  | _ => none

/-- Any number, in the given format. A whole number is rounded once. -/
def jsonBinary? (f : BinaryFormat) (narrow : Binary64 → Nat) (cs : List Char) :
    Option (Nat × List Char) :=
  match Json.number? cs with
  | some (.natural n, rest) => some (f.nearest n 1, rest)
  | some (.negative n, rest) => some (f.signed true (f.nearest n 1), rest)
  | some (.real x, rest) => some (narrow x, rest)
  | none => none

/-- The content of a value of the given kind. -/
def jsonContent? : Kind → List Char → Option (Value × List Char)
  | .bool, cs => (jsonBool? cs).map (fun r => (bool r.1, r.2))
  | .uint8, cs => (jsonNatural? 256 cs).map (fun r => (uint8 (UInt8.ofNat r.1), r.2))
  | .uint16, cs => (jsonNatural? 65536 cs).map (fun r => (uint16 (UInt16.ofNat r.1), r.2))
  | .uint32, cs => (jsonNatural? 4294967296 cs).map (fun r => (uint32 (UInt32.ofNat r.1), r.2))
  | .uint64, cs =>
    (jsonNatural? 18446744073709551616 cs).map (fun r => (uint64 (UInt64.ofNat r.1), r.2))
  | .float32, cs =>
    (jsonBinary? .binary32 (fun x => x.toBinary32.bits.toNat) cs).map
      (fun r => (float32 ⟨UInt32.ofNat r.1⟩, r.2))
  | .float64, cs =>
    (jsonBinary? .binary64 (fun x => x.bits.toNat) cs).map
      (fun r => (float64 ⟨UInt64.ofNat r.1⟩, r.2))

/-- Reads a value from its JSON text. -/
def ofJson? (text : String) : Option Value := do
  let entry (key : String) (cs : List Char) : Option (Value × List Char) := do
    jsonContent? (← Kind.ofJsonKey? key) cs
  let (v, rest) ← Json.single? entry text.toList
  if Json.ends rest then some v else none

/-- The JSON text of a value, for the kinds whose numbers are whole. -/
def toJson? (v : Value) : Option String :=
  let content := match v with
    | bool v => some (if v then "true" else "false")
    | uint8 v => some (toString v.toNat)
    | uint16 v => some (toString v.toNat)
    | uint32 v => some (toString v.toNat)
    | uint64 v => some (toString v.toNat)
    | float32 _ => none
    | float64 _ => none
  content.map (fun s => "\x7b\"" ++ v.kind.jsonKey ++ "\":" ++ s ++ "\x7d")

end Value

end TaggedWire
