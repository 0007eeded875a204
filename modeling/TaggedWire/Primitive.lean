import TaggedWire.Bytes.Slot
import TaggedWire.Value

/-!
Encoding and decoding of single primitives: one tag byte and a canonical payload. The first half
works on values of a known kind, the second on values whose kind is found at run time.
-/
namespace TaggedWire

namespace Kind

/-- The tag that announces a value. Only a boolean's depends on the value. -/
def tag : (k : Kind) → k.Native → Tag
  | bool, v => if v then .boolTrue else .boolFalse
  | uint8, _ => .uint8
  | uint16, _ => .uint16
  | uint32, _ => .uint32
  | uint64, _ => .uint64
  | float32, _ => .float32
  | float64, _ => .float64

def payload : (k : Kind) → k.Native → Bytes
  | bool, _ => []
  | uint8, v => Word.bytes v
  | uint16, v => Word.bytes v
  | uint32, v => Word.bytes v
  | uint64, v => Word.bytes v
  | float32, v => Word.bytes v
  | float64, v => Word.bytes v

/-- The value with an accepted tag byte and a payload of the kind's width. -/
def assemble : (k : Kind) → UInt8 → Bytes → k.Native
  | bool, t, _ => t == Tag.boolTrue.byte
  | uint8, _, p => Word.ofBytes p
  | uint16, _, p => Word.ofBytes p
  | uint32, _, p => Word.ofBytes p
  | uint64, _, p => Word.ofBytes p
  | float32, _, p => Word.ofBytes p
  | float64, _, p => Word.ofBytes p

def encode (k : Kind) (v : k.Native) : Bytes :=
  (k.tag v).byte :: k.payload v

/-- Reads a value from the front of `rest`, the part of the input that starts at `offset`. The tag
is judged before the payload is missed. -/
def read (k : Kind) (offset : Nat) (rest : Bytes) : Except WireError (k.Native × Bytes) :=
  match rest with
  | [] => .error (.truncated offset 1 0 k.name)
  | t :: tail =>
    if k.accepts t then
      let p := tail.take k.payloadLen
      if p.length = k.payloadLen then .ok (k.assemble t p, tail.drop k.payloadLen)
      else .error (.truncated offset k.encodedLen rest.length k.name)
    else .error (.tagMismatch offset k.name t)

/-- Decodes the value at `offset`. Bytes after it are not looked at. -/
def decodeAt (k : Kind) (buf : Bytes) (offset : Nat) : Except WireError k.Native :=
  (·.1) <$> k.read offset (buf.drop offset)

/-- Decodes the value at `offset`, with both checks of the range in 64-bit words. -/
def decodeWord (k : Kind) (buf : Bytes) (offset : UInt64) : Except WireError k.Native := do
  Slot.checkWord buf offset 1 k.name
  let t := buf.getD offset.toNat 0
  if k.accepts t then
    Slot.checkWord buf offset k.encodedLen.toUInt64 k.name
    return k.assemble t ((buf.drop (offset + 1).toNat).take k.payloadLen)
  else throw (.tagMismatch offset.toNat k.name t)

/-- Writes a value at `offset` and returns the offset after it. -/
def writeAt (k : Kind) (offset : Nat) (v : k.Native) : Edit Nat := do
  Slot.write offset (k.encode v) "primitive write"
  return offset + k.encodedLen

/-- Writes a value at `offset`, computed in 64-bit words. -/
def writeWord (k : Kind) (offset : UInt64) (v : k.Native) : Edit UInt64 := do
  Slot.modifyWord offset k.encodedLen.toUInt64 "primitive write" fun _ => k.encode v
  return offset + k.encodedLen.toUInt64

theorem encodedLen_mul_lt (k : Kind) {n : Nat} (h : n * k.memorySize ≤ maxObject) :
    n * k.encodedLen < UInt64.size := by
  have hdouble : 2 * maxObject < UInt64.size := by decide
  calc n * k.encodedLen
      ≤ n * (2 * k.memorySize) := Nat.mul_le_mul_left n k.encodedLen_le_two_mul
    _ = 2 * (n * k.memorySize) := Nat.mul_left_comm n 2 k.memorySize
    _ ≤ 2 * maxObject := Nat.mul_le_mul_left 2 h
    _ < UInt64.size := hdouble

theorem toNat_runWord (k : Kind) {n : Nat} (h : n * k.memorySize ≤ maxObject) :
    (n.toUInt64 * k.encodedLen.toUInt64).toNat = n * k.encodedLen := by
  have hrun := k.encodedLen_mul_lt h
  have hn : n < UInt64.size :=
    Nat.lt_of_le_of_lt (Nat.le_mul_of_pos_right n k.encodedLen_pos) hrun
  have hword : k.encodedLen < UInt64.size := Nat.lt_of_le_of_lt k.encodedLen_le (by decide)
  rw [UInt64.toNat_mul, toNat_toUInt64 hn, toNat_toUInt64 hword]
  exact Nat.mod_eq_of_lt hrun

@[simp] theorem length_payload (k : Kind) (v : k.Native) : (k.payload v).length = k.payloadLen := by
  cases k <;> rfl

@[simp] theorem length_encode (k : Kind) (v : k.Native) : (k.encode v).length = k.encodedLen := by
  simp only [encode, List.length_cons, length_payload, encodedLen, Nat.add_comm]

theorem accepts_tag (k : Kind) (v : k.Native) : k.accepts (k.tag v).byte = true := by
  cases k <;> first | rfl | (cases v <;> rfl)

@[simp] theorem assemble_tag_payload (k : Kind) (v : k.Native) :
    k.assemble (k.tag v).byte (k.payload v) = v := by
  cases k <;> first | exact Word.ofBytes_bytes v | (cases v <;> rfl)

/-- Accepted bytes are the encoding of the value that they are read as. -/
theorem encode_assemble {k : Kind} {t : UInt8} {p : Bytes} (ht : k.accepts t = true)
    (hp : p.length = k.payloadLen) : k.encode (k.assemble t p) = t :: p := by
  cases k
  case bool =>
    have hnil : p = [] := List.length_eq_zero_iff.mp hp
    simp only [accepts, Bool.or_eq_true, beq_iff_eq] at ht
    subst hnil
    rcases ht with rfl | rfl <;> rfl
  all_goals
    simp only [accepts, beq_iff_eq] at ht
    subst ht
    exact congrArg (List.cons _) (Word.bytes_ofBytes hp)

/-- Reading what was written gives the value back and stops right after it. -/
theorem read_encode_append (k : Kind) (v : k.Native) (offset : Nat) (rest : Bytes) :
    k.read offset (k.encode v ++ rest) = .ok (v, rest) := by
  have hp := length_payload k v
  simp only [read, encode, List.cons_append, accepts_tag, if_true]
  rw [← hp, List.take_left, if_pos rfl, List.drop_left, assemble_tag_payload]

end Kind

namespace Value

def encode : Value → Bytes
  | bool v => Kind.encode .bool v
  | uint8 v => Kind.encode .uint8 v
  | uint16 v => Kind.encode .uint16 v
  | uint32 v => Kind.encode .uint32 v
  | uint64 v => Kind.encode .uint64 v
  | float32 v => Kind.encode .float32 v
  | float64 v => Kind.encode .float64 v

/-- Reads a value of the kind that the caller names at run time. -/
def read (k : Kind) (offset : Nat) (rest : Bytes) : Except WireError (Value × Bytes) :=
  (fun r => (ofNative k r.1, r.2)) <$> k.read offset rest

def decodeAt (k : Kind) (buf : Bytes) (offset : Nat) : Except WireError Value :=
  match k with
  | .bool => Value.bool <$> Kind.decodeAt .bool buf offset
  | .uint8 => Value.uint8 <$> Kind.decodeAt .uint8 buf offset
  | .uint16 => Value.uint16 <$> Kind.decodeAt .uint16 buf offset
  | .uint32 => Value.uint32 <$> Kind.decodeAt .uint32 buf offset
  | .uint64 => Value.uint64 <$> Kind.decodeAt .uint64 buf offset
  | .float32 => Value.float32 <$> Kind.decodeAt .float32 buf offset
  | .float64 => Value.float64 <$> Kind.decodeAt .float64 buf offset

/-- An encoded item in diagnostics. -/
def encodedText (bytes : Bytes) : String :=
  s!"Encoded({hex bytes})"

@[simp] theorem length_encode (v : Value) : v.encode.length = v.kind.encodedLen := by
  cases v <;> exact Kind.length_encode _ _

theorem encode_ofNative (k : Kind) (v : k.Native) : (ofNative k v).encode = k.encode v := by
  cases k <;> rfl

end Value

end TaggedWire
