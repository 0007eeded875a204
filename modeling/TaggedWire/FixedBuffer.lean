import TaggedWire.Reader
import TaggedWire.Writer

/-!
Buffers of a size fixed by their type. Writes name their offset and carry the proof that they fit,
so that none of them can fail; reads can fail only because of what the bytes say.
-/
namespace TaggedWire

structure FixedBuffer (n : Nat) where
  bytes : Bytes
  length_eq : bytes.length = n

namespace FixedBuffer

variable {n : Nat}

def zeros : FixedBuffer n :=
  ⟨List.replicate n 0, List.length_replicate⟩

/-- A buffer with exactly the given bytes. -/
def ofBytes (n : Nat) (bytes : Bytes) : Except WireError (FixedBuffer n) :=
  if h : bytes.length = n then .ok ⟨bytes, h⟩
  else if bytes.length < n then .error (.truncated 0 n bytes.length "fixed buffer input")
  else .error (.trailingBytes n bytes.length)

/-- Replaces the range at `offset`. -/
def splice (b : FixedBuffer n) (offset : Nat) (new : Bytes) (h : offset + new.length ≤ n) :
    FixedBuffer n :=
  ⟨Slot.splice b.bytes offset new, by
    rw [Slot.length_splice (by rw [b.length_eq]; exact h), b.length_eq]⟩

/-- Writes an element at `offset` and returns the offset after it. -/
def put (b : FixedBuffer n) (offset : Nat) (k : Kind) (v : k.Native)
    (h : offset + k.encodedLen ≤ n) : FixedBuffer n × Nat :=
  (b.splice offset (k.encode v) (by rw [Kind.length_encode]; exact h), offset + k.encodedLen)

/-- Writes a run at `offset`, element by element, and returns the offset after it. -/
def putMany (b : FixedBuffer n) (offset : Nat) (k : Kind) (vs : List k.Native)
    (h : offset + (Run.bytes k vs).length ≤ n) : FixedBuffer n × Nat :=
  match vs with
  | [] => (b, offset)
  | v :: vs =>
    have hv : offset + k.encodedLen + (Run.bytes k vs).length ≤ n := by
      rw [Run.bytes_cons, List.length_append, Kind.length_encode, ← Nat.add_assoc] at h
      exact h
    let first := b.put offset k v (Nat.le_trans (Nat.le_add_right _ _) hv)
    first.1.putMany first.2 k vs hv

/-- Writes the shortest header for a count at `offset` and returns the offset after it. -/
def putArrayHeader (b : FixedBuffer n) (offset : Nat) (count : ArrayLength)
    (h : offset + count.encodedLen ≤ n) : FixedBuffer n × Nat :=
  (b.splice offset count.encode (by rw [ArrayLength.length_encode]; exact h),
    offset + count.encodedLen)

def get (b : FixedBuffer n) (offset : Nat) (k : Kind) : Except WireError k.Native :=
  k.decodeAt b.bytes offset

def getMany (b : FixedBuffer n) (offset : Nat) (k : Kind) (count : Nat) :
    Except WireError (List k.Native) :=
  (·.1) <$> Run.decodeAt k b.bytes offset count

def expectArrayHeader (b : FixedBuffer n) (offset : Nat) (count : ArrayLength) :
    Except WireError Nat :=
  ArrayHeader.expectAt b.bytes offset count

/-- Overwrites the last three bytes by the trailer of those before them. -/
def stamp (b : FixedBuffer n) (h : Trailer.len < n) : FixedBuffer n × UInt16 :=
  let c := Checksum.ofBytes (b.bytes.take (n - Trailer.len))
  (b.splice (n - Trailer.len) (Trailer.encode c) (by
    have hl : (Trailer.encode c).length = Trailer.len := Kind.length_encode .uint16 c
    omega), c)

/-- The stored checksum, if the buffer ends in its trailer. -/
def check (b : FixedBuffer n) : Except WireError UInt16 :=
  Trailer.check b.bytes

def verify (b : FixedBuffer n) : Bool :=
  Trailer.verify b.bytes

/-- A writer into a copy of the buffer, at its start. -/
def writer (b : FixedBuffer n) : Writer :=
  Writer.onStorage b.bytes

def reader (b : FixedBuffer n) : Reader :=
  Reader.ofBytes b.bytes

/-- The buffer in diagnostics. -/
def display (b : FixedBuffer n) : String :=
  s!"FixedBuffer<{n}>({hex b.bytes})"

end FixedBuffer

end TaggedWire
