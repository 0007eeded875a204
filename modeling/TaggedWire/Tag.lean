import TaggedWire.Bytes.Hex
import TaggedWire.Kind

/-!
Tag bytes. Every encoded item starts with one byte that says what follows. Ten tags are single
bytes; short array headers occupy the sixteen bytes from `0x90` and are classified apart.
-/
namespace TaggedWire

inductive Tag where
  | array16
  | array32
  | float32
  | float64
  | boolFalse
  | boolTrue
  | uint8
  | uint16
  | uint32
  | uint64
  deriving DecidableEq

namespace Tag

def all : List Tag :=
  [array16, array32, float32, float64, boolFalse, boolTrue, uint8, uint16, uint32, uint64]

def byte : Tag → UInt8
  | array16 => 0xDC
  | array32 => 0xDD
  | float32 => 0xCA
  | float64 => 0xCB
  | boolFalse => 0xC2
  | boolTrue => 0xC3
  | uint8 => 0xCC
  | uint16 => 0xCD
  | uint32 => 0xCE
  | uint64 => 0xCF

def ofByte? (b : UInt8) : Option Tag :=
  all.find? (fun t => t.byte == b)

def name : Tag → String
  | array16 => "array16"
  | array32 => "array32"
  | float32 => "float32"
  | float64 => "float64"
  | boolFalse => "false"
  | boolTrue => "true"
  | uint8 => "uint8"
  | uint16 => "uint16"
  | uint32 => "uint32"
  | uint64 => "uint64"

/-- The two tags that announce an array length of two or four bytes. -/
def isArrayMarker : Tag → Bool
  | array16 | array32 => true
  | _ => false

end Tag

/-- A byte as it is shown in diagnostics: `0x` and two digits. -/
def byteText (b : UInt8) : String :=
  "0x" ++ hex [b]

/-- Name and byte, as in `uint8 (0xcc)`. -/
def Tag.display (t : Tag) : String :=
  t.name ++ " (" ++ byteText t.byte ++ ")"

/-- The bytes `0x90` to `0x9F` carry an array length in their low half. -/
def isFixArray (b : UInt8) : Bool :=
  b &&& 0xF0 == 0x90

/-- What a byte means where a tag is expected. -/
def describeByte (b : UInt8) : String :=
  if isFixArray b then "fixarray"
  else match Tag.ofByte? b with
    | some t => t.name
    | none => "unknown"

namespace Kind

/-- Whether an element of this kind may start with the byte. -/
def accepts : Kind → UInt8 → Bool
  | bool, b => b == Tag.boolFalse.byte || b == Tag.boolTrue.byte
  | uint8, b => b == Tag.uint8.byte
  | uint16, b => b == Tag.uint16.byte
  | uint32, b => b == Tag.uint32.byte
  | uint64, b => b == Tag.uint64.byte
  | float32, b => b == Tag.float32.byte
  | float64, b => b == Tag.float64.byte

/-- A byte starts elements of at most one kind. -/
theorem eq_of_accepts {j k : Kind} {b : UInt8} (hj : j.accepts b = true) (hk : k.accepts b = true) :
    j = k := by
  cases j <;> cases k <;>
    simp only [accepts, Bool.or_eq_true, beq_iff_eq, reduceCtorEq] at hj hk ⊢ <;>
    rcases hj with rfl | rfl <;> revert hk <;> decide

end Kind

end TaggedWire
