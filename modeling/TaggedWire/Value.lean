import TaggedWire.Kind
import TaggedWire.Number.Decimal

/-!
Primitive values whose kind is known only at run time, and the passage between them and values of a
known kind. Every value is made from one of its kind, which `as?` finds again.
-/
namespace TaggedWire

inductive Value where
  | bool (v : Bool)
  | uint8 (v : UInt8)
  | uint16 (v : UInt16)
  | uint32 (v : UInt32)
  | uint64 (v : UInt64)
  | float32 (v : Binary32)
  | float64 (v : Binary64)
  deriving DecidableEq

namespace Value

def kind : Value → Kind
  | bool _ => .bool
  | uint8 _ => .uint8
  | uint16 _ => .uint16
  | uint32 _ => .uint32
  | uint64 _ => .uint64
  | float32 _ => .float32
  | float64 _ => .float64

/-- Forgets the kind of a native value. -/
def ofNative : (k : Kind) → k.Native → Value
  | .bool, v => bool v
  | .uint8, v => uint8 v
  | .uint16, v => uint16 v
  | .uint32, v => uint32 v
  | .uint64, v => uint64 v
  | .float32, v => float32 v
  | .float64, v => float64 v

/-- The native value, if the value has the asked kind. Nothing is converted. -/
def as? : (k : Kind) → Value → Option k.Native
  | .bool, bool v => some v
  | .uint8, uint8 v => some v
  | .uint16, uint16 v => some v
  | .uint32, uint32 v => some v
  | .uint64, uint64 v => some v
  | .float32, float32 v => some v
  | .float64, float64 v => some v
  | _, _ => none

/-- Equality of what two values stand for. Values of different kinds differ; floating-point values
are compared as numbers, so that a NaN differs from itself and the zeros are equal. -/
def sameNumber : Value → Value → Bool
  | float32 a, float32 b => BinaryFormat.binary32.sameNumber a.bits.toNat b.bits.toNat
  | float64 a, float64 b => BinaryFormat.binary64.sameNumber a.bits.toNat b.bits.toNat
  | a, b => a == b

/-- The value with its kind as a short suffix; booleans have none. -/
def display : Value → String
  | bool v => if v then "true" else "false"
  | uint8 v => toString v.toNat ++ "u8"
  | uint16 v => toString v.toNat ++ "u16"
  | uint32 v => toString v.toNat ++ "u32"
  | uint64 v => toString v.toNat ++ "u64"
  | float32 v => v.display ++ "f32"
  | float64 v => v.display ++ "f64"

@[simp] theorem kind_ofNative (k : Kind) (v : k.Native) : (ofNative k v).kind = k := by
  cases k <;> rfl

@[simp] theorem as?_ofNative (k : Kind) (v : k.Native) : as? k (ofNative k v) = some v := by
  cases k <;> rfl

/-- A value of kind `k` comes from a native value. -/
theorem exists_ofNative (v : Value) : ∃ n : v.kind.Native, v = ofNative v.kind n := by
  cases v <;> exact ⟨_, rfl⟩

end Value

end TaggedWire
