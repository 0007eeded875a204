import TaggedWire.Bytes.Slot

/-!
Array headers: an element count in the shortest of three forms. A count is never zero, on either
side; a form longer than needed is accepted when reading.
-/
namespace TaggedWire

/-- The number of elements that a header announces. -/
structure ArrayLength where
  val : Nat
  pos : 0 < val
  le_max : val ≤ maxElements

/-- Lengths are compared by their counts. -/
instance : DecidableEq ArrayLength := fun a b =>
  decidable_of_iff (a.val = b.val)
    ⟨fun h => by cases a; cases b; cases h; rfl, congrArg ArrayLength.val⟩

/-- How a count is written. -/
inductive ArrayForm where
  | fixArray
  | array16
  | array32
  deriving DecidableEq

/-- Bytes of a header in this form. -/
def ArrayForm.headerLen : ArrayForm → Nat
  | fixArray => 1
  | array16 => 3
  | array32 => 5

namespace ArrayLength

/-- There is no length for a count that is zero or above the limit. -/
def ofNat? (n : Nat) : Option ArrayLength :=
  if h : 0 < n ∧ n ≤ maxElements then some ⟨n, h.1, h.2⟩ else none

/-- A length from any count, with the cause when there is none. -/
def ofNat (n : Nat) : Except WireError ArrayLength :=
  if hz : n = 0 then .error (.zeroLength "array length")
  else if hm : n ≤ maxElements then .ok ⟨n, Nat.pos_of_ne_zero hz, hm⟩
  else .error (.lengthOverflow n)

/-- The shortest form that can carry the count. -/
def form (n : ArrayLength) : ArrayForm :=
  if n.val ≤ 15 then .fixArray
  else if n.val ≤ 65535 then .array16
  else .array32

def encodedLen (n : ArrayLength) : Nat :=
  n.form.headerLen

/-- The shortest header for the count. -/
def encode (n : ArrayLength) : Bytes :=
  match n.form with
  | .fixArray => [0x90 ||| UInt8.ofNat n.val]
  | .array16 => Tag.array16.byte :: BigEndian.encode 2 n.val
  | .array32 => Tag.array32.byte :: BigEndian.encode 4 n.val

@[simp] theorem length_encode (n : ArrayLength) : n.encode.length = n.encodedLen := by
  unfold encode encodedLen
  cases n.form <;> simp [ArrayForm.headerLen]

end ArrayLength

namespace ArrayHeader

/-- Bytes that a header for `n` elements takes, known without a length at hand. -/
def encodedLen (n : Nat) : Nat :=
  if n ≤ 15 then 1 else if n ≤ 65535 then 3 else 5

/-- Judges the count of a complete header. -/
def accept (count used : Nat) : Except WireError (ArrayLength × Nat) :=
  match ArrayLength.ofNat? count with
  | some n => .ok (n, used)
  | none => .error (.zeroLength "decoded array header")

/-- The count in the `width` bytes after a marker. -/
def readCount (width offset : Nat) (rest : Bytes) (context : String) :
    Except WireError (ArrayLength × Nat) :=
  let count := (rest.drop 1).take width
  if count.length = width then accept (BigEndian.decode count) (1 + width)
  else .error (.truncated offset (1 + width) rest.length context)

/-- Reads a header from the front of `rest`, the part of the input that starts at `offset`, and says
how many bytes it took. -/
def read (offset : Nat) (rest : Bytes) : Except WireError (ArrayLength × Nat) :=
  match rest with
  | [] => .error (.truncated offset 1 0 "array header")
  | b :: _ =>
    if isFixArray b then accept (b &&& 0x0F).toNat 1
    else if b = Tag.array16.byte then readCount 2 offset rest "array16 header"
    else if b = Tag.array32.byte then readCount 4 offset rest "array32 header"
    else .error (.invalidArrayHeader offset b)

/-- The count at `offset` and the offset after the header. -/
def decodeAt (buf : Bytes) (offset : Nat) : Except WireError (ArrayLength × Nat) := do
  let (n, used) ← read offset (buf.drop offset)
  return (n, offset + used)

/-- The offset after a header that must carry the given count. -/
def expectAt (buf : Bytes) (offset : Nat) (expected : ArrayLength) : Except WireError Nat := do
  let (n, next) ← decodeAt buf offset
  if n = expected then return next
  else throw (.countMismatch offset expected.val n.val)

/-- Writes the shortest header at `offset` and returns the offset after it. -/
def writeAt (offset : Nat) (n : ArrayLength) : Edit Nat := do
  Slot.write offset n.encode "array header write"
  return offset + n.encodedLen

/-- Writes the shortest header at `offset`, computed in 64-bit words. -/
def writeWord (offset : UInt64) (n : ArrayLength) : Edit UInt64 := do
  let size := n.encode.length.toUInt64
  Slot.modifyWord offset size "array header write" fun _ => n.encode
  return offset + size

end ArrayHeader

end TaggedWire
