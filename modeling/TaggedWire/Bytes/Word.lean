import TaggedWire.Bytes.BigEndian

/-!
Words: values with a fixed byte width and a big-endian form. Unsigned integers are words, and so are
binary floating-point numbers, which are kept as their bits so that every payload survives.
Main statements: writing a word and reading it back is the identity, and the other way round.
-/
namespace TaggedWire

attribute [local instance (high)] instPowNat

/-- A binary32 number, held as its bit pattern. Equality is equality of bits. -/
structure Binary32 where
  bits : UInt32
  deriving DecidableEq

/-- A binary64 number, held as its bit pattern. Equality is equality of bits. -/
structure Binary64 where
  bits : UInt64
  deriving DecidableEq

/-- A type whose values are the numbers below `256 ^ width`. -/
class Word (α : Type) where
  width : Nat
  toNat : α → Nat
  ofNat : Nat → α
  toNat_lt : ∀ v, toNat v < 256 ^ width
  ofNat_toNat : ∀ v, ofNat (toNat v) = v
  toNat_ofNat : ∀ n, n < 256 ^ width → toNat (ofNat n) = n

namespace Word

instance : Word UInt8 where
  width := 1
  toNat := UInt8.toNat
  ofNat := UInt8.ofNat
  toNat_lt v := v.toNat_lt
  ofNat_toNat _ := UInt8.ofNat_toNat
  toNat_ofNat _ h := UInt8.toNat_ofNat_of_lt' h

instance : Word UInt16 where
  width := 2
  toNat := UInt16.toNat
  ofNat := UInt16.ofNat
  toNat_lt v := v.toNat_lt
  ofNat_toNat _ := UInt16.ofNat_toNat
  toNat_ofNat _ h := UInt16.toNat_ofNat_of_lt' h

instance : Word UInt32 where
  width := 4
  toNat := UInt32.toNat
  ofNat := UInt32.ofNat
  toNat_lt v := v.toNat_lt
  ofNat_toNat _ := UInt32.ofNat_toNat
  toNat_ofNat _ h := UInt32.toNat_ofNat_of_lt' h

instance : Word UInt64 where
  width := 8
  toNat := UInt64.toNat
  ofNat := UInt64.ofNat
  toNat_lt v := v.toNat_lt
  ofNat_toNat _ := UInt64.ofNat_toNat
  toNat_ofNat _ h := UInt64.toNat_ofNat_of_lt' h

instance : Word Binary32 where
  width := 4
  toNat v := v.bits.toNat
  ofNat n := ⟨UInt32.ofNat n⟩
  toNat_lt v := v.bits.toNat_lt
  ofNat_toNat _ := congrArg Binary32.mk UInt32.ofNat_toNat
  toNat_ofNat _ h := UInt32.toNat_ofNat_of_lt' h

instance : Word Binary64 where
  width := 8
  toNat v := v.bits.toNat
  ofNat n := ⟨UInt64.ofNat n⟩
  toNat_lt v := v.bits.toNat_lt
  ofNat_toNat _ := congrArg Binary64.mk UInt64.ofNat_toNat
  toNat_ofNat _ h := UInt64.toNat_ofNat_of_lt' h

variable {α : Type} [Word α]

/-- The canonical bytes of a word, most significant first. -/
def bytes (v : α) : List UInt8 :=
  BigEndian.encode (width α) (toNat v)

/-- The word with the given canonical bytes. -/
def ofBytes (bs : List UInt8) : α :=
  ofNat (BigEndian.decode bs)

/-- Writes a word over the front of `out`. There is no result if `out` is too short. -/
def write? (v : α) (out : List UInt8) : Option (List UInt8) :=
  if out.length < width α then none else some (bytes v ++ out.drop (width α))

/-- Reads a word from the front of `bs`. There is no result if `bs` is too short. -/
def read? (bs : List UInt8) : Option α :=
  if bs.length < width α then none else some (ofBytes (bs.take (width α)))

/- The same by shifts in a 64-bit register. -/

/-- A shift by as many places as the register has bits, or by more, has no result. -/
def shiftRight? (w : UInt64) (places : Nat) : Option UInt64 :=
  if places < 64 then some (w >>> UInt64.ofNat places) else none

def shiftLeft? (w : UInt64) (places : Nat) : Option UInt64 :=
  if places < 64 then some (w <<< UInt64.ofNat places) else none

/-- Puts the byte `i` of a register in its place, counted from the first of `width` bytes. -/
def storeByte? (width : Nat) (w : UInt64) (out : List UInt8) (i : Nat) : Option (List UInt8) := do
  let shifted ← shiftRight? w (8 * (width - 1 - i))
  return out.set i (shifted &&& 0xFF).toUInt8

/-- Takes a byte into a register, below the bits that are there. -/
def joinByte? (w : UInt64) (b : UInt8) : Option UInt64 := do
  let shifted ← shiftLeft? w 8
  return shifted ||| b.toUInt64

/-- A register with more bits than the type can hold has no result. -/
def narrow? (w : UInt64) : Option α :=
  if w.toNat < 256 ^ width α then some (ofNat w.toNat) else none

/-- Writes a word over the front of `out`, byte by byte from a register. -/
def store? (v : α) (out : List UInt8) : Option (List UInt8) :=
  if out.length < width α then none
  else (List.range (width α)).foldlM (storeByte? (width α) (UInt64.ofNat (toNat v))) out

/-- Reads a word from the front of `bs`, byte by byte into a register. -/
def load? (bs : List UInt8) : Option α :=
  if bs.length < width α then none
  else do narrow? (← (bs.take (width α)).foldlM joinByte? 0)

@[simp] theorem length_bytes (v : α) : (bytes v).length = width α :=
  BigEndian.length_encode _ _

@[simp] theorem ofBytes_bytes (v : α) : ofBytes (bytes v) = v := by
  rw [ofBytes, bytes, BigEndian.decode_encode_of_lt (toNat_lt v), ofNat_toNat]

theorem bytes_ofBytes {bs : List UInt8} (h : bs.length = width α) :
    bytes (ofBytes bs : α) = bs := by
  have hlt : BigEndian.decode bs < 256 ^ width α := h ▸ BigEndian.decode_lt bs
  rw [bytes, ofBytes, toNat_ofNat _ hlt, ← h, BigEndian.encode_decode]

end Word

end TaggedWire
