import TaggedWire.Bytes.Word

/-!
The seven primitive kinds of the wire format, their names and their widths.
-/
namespace TaggedWire

inductive Kind where
  | bool
  | uint8
  | uint16
  | uint32
  | uint64
  | float32
  | float64
  deriving DecidableEq

namespace Kind

def all : List Kind :=
  [bool, uint8, uint16, uint32, uint64, float32, float64]

/-- The name used in schemas and diagnostics. -/
def name : Kind → String
  | bool => "bool"
  | uint8 => "uint8"
  | uint16 => "uint16"
  | uint32 => "uint32"
  | uint64 => "uint64"
  | float32 => "float32"
  | float64 => "float64"

/-- The kind of that exact name. Letter case and surrounding blanks matter. -/
def ofName? (s : String) : Option Kind :=
  all.find? (fun k => k.name == s)

/-- Bytes after the tag. A boolean has none: its tag carries the value. -/
def payloadLen : Kind → Nat
  | bool => 0
  | uint8 => 1
  | uint16 => 2
  | uint32 | float32 => 4
  | uint64 | float64 => 8

/-- Bytes of one encoded element: the tag and its payload. -/
def encodedLen (k : Kind) : Nat :=
  1 + k.payloadLen

/-- Bytes of a native value in memory. -/
def memorySize : Kind → Nat
  | bool | uint8 => 1
  | uint16 => 2
  | uint32 | float32 => 4
  | uint64 | float64 => 8

/-- The type whose values a kind transports. Floating-point kinds transport bit patterns. -/
abbrev Native : Kind → Type
  | bool => Bool
  | uint8 => UInt8
  | uint16 => UInt16
  | uint32 => UInt32
  | uint64 => UInt64
  | float32 => Binary32
  | float64 => Binary64

/-- The value that stands where nothing was stored yet. -/
def zero : (k : Kind) → k.Native
  | bool => false
  | uint8 => 0
  | uint16 => 0
  | uint32 => 0
  | uint64 => 0
  | float32 => ⟨0⟩
  | float64 => ⟨0⟩

instance (k : Kind) : DecidableEq k.Native := by
  cases k <;> exact inferInstance

theorem ofName?_name (k : Kind) : ofName? k.name = some k := by
  cases k <;> decide

theorem ofName?_eq_some_iff {s : String} {k : Kind} : ofName? s = some k ↔ s = k.name := by
  constructor
  · intro h
    have := List.find?_some h
    exact (beq_iff_eq.mp this).symm
  · rintro rfl
    exact ofName?_name k

theorem encodedLen_pos (k : Kind) : 0 < k.encodedLen := by
  unfold encodedLen
  omega

theorem encodedLen_le (k : Kind) : k.encodedLen ≤ 9 := by
  cases k <;> decide

/-- An element has at most one byte more than its value has in memory. -/
theorem encodedLen_le_two_mul (k : Kind) : k.encodedLen ≤ 2 * k.memorySize := by
  cases k <;> decide

end Kind

end TaggedWire
