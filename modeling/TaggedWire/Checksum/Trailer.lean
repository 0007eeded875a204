import TaggedWire.Checksum.Register
import TaggedWire.Primitive

/-!
The integrity trailer: the checksum of everything before it, encoded as a `uint16` element.
-/
namespace TaggedWire.Trailer

/-- Bytes of a trailer: a tag and two checksum bytes. -/
def len : Nat := 3

def encode (c : UInt16) : Bytes :=
  Kind.encode .uint16 c

/-- Appends the trailer of a byte string and returns its checksum. -/
def push (bytes : Bytes) : Bytes × UInt16 :=
  let c := Checksum.ofBytes bytes
  (bytes ++ encode c, c)

/-- Overwrites the last three bytes by the trailer of those before them. The buffer after it comes
with the checksum; one that is too short stays as it is. -/
def stamp (buf : Bytes) : Bytes × Except WireError UInt16 :=
  if buf.length < len then (buf, .error (.bufferTooSmall len buf.length "integrity trailer"))
  else
    let covered := buf.length - len
    let c := Checksum.ofBytes (buf.take covered)
    (Slot.splice buf covered (encode c), .ok c)

/-- The stored checksum, if the bytes end in the trailer of those before it. -/
def check (bytes : Bytes) : Except WireError UInt16 :=
  if bytes.length < len then .error (.truncated 0 len bytes.length "integrity trailer")
  else do
    let covered := bytes.length - len
    let stored ← Kind.decodeAt .uint16 bytes covered
    let calculated := Checksum.ofBytes (bytes.take covered)
    if stored = calculated then return stored
    else throw (.checksumMismatch stored calculated bytes.length)

/-- Whether the bytes end in the trailer of those before it. -/
def verify (bytes : Bytes) : Bool :=
  (check bytes).isOk

end TaggedWire.Trailer
