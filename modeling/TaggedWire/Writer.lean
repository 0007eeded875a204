import TaggedWire.ArrayHeader
import TaggedWire.Checksum.Trailer
import TaggedWire.Run

/-!
Writers: bytes are appended, either without limit or into storage of a fixed size. A bounded writer
holds the bytes written so far and the storage that is still untouched, so that its whole storage is
always the one followed by the other.
-/
namespace TaggedWire

structure Writer where
  written : Bytes
  /-- Storage not yet written; a growing writer has none and needs none. -/
  room : Option Bytes

/-- A step of a writer. A step that fails keeps what it has written until then. -/
abbrev Write := EStateM WireError Writer

namespace Writer

/-- A writer without limit that continues the given bytes. -/
def growing (bytes : Bytes) : Writer := ⟨bytes, none⟩

/-- A writer into the given storage, at its start. -/
def onStorage (storage : Bytes) : Writer := ⟨[], some storage⟩

def position (w : Writer) : Nat :=
  w.written.length

/-- Bytes that still fit; not meaningful for a growing writer. -/
def remaining (w : Writer) : Nat :=
  (w.room.getD []).length

/-- All bytes that the writer holds, written or not. -/
def storage (w : Writer) : Bytes :=
  w.written ++ w.room.getD []

def capacity (w : Writer) : Nat :=
  w.storage.length

/-- The bytes written so far, in diagnostics. -/
def display (w : Writer) : String :=
  s!"GrowableBuffer({hex w.written})"

/-- Fails unless `len` more bytes fit. -/
def ensure (len : Nat) : Write Unit := do
  let w ← get
  match w.room with
  | none => return ()
  | some rest =>
    if rest.length < len then
      throw (.bufferTooSmall (saturate (w.position + len)) w.capacity "slice writer")
    else return ()

/-- Appends bytes, all or none. -/
def append (bytes : Bytes) : Write Unit := do
  ensure bytes.length
  modify fun w => ⟨w.written ++ bytes, w.room.map (·.drop bytes.length)⟩

/-- Appends one element and returns its size. -/
def put (k : Kind) (v : k.Native) : Write Nat := do
  append (k.encode v)
  return k.encodedLen

def putValue (v : Value) : Write Nat := do
  append v.encode
  return v.encode.length

def putArrayHeader (n : ArrayLength) : Write Nat := do
  append n.encode
  return n.encode.length

/-- Appends a run, element by element, and returns its size. The room for all of it is asked for
before the first element. -/
def putMany (k : Kind) (vs : List k.Native) : Write Nat := do
  if vs.isEmpty then throw (.zeroLength "repeated run")
  let size := vs.length * k.encodedLen
  ensure size
  vs.forM fun v => discard (put k v)
  return size

/-- Appends the encodings of values of any kinds. -/
def putValues (vs : List Value) : Write Unit :=
  append (vs.flatMap Value.encode)

/-- Appends the trailer of the bytes written from `start` on and returns its checksum. -/
def putTrailer (start : Nat) : Write UInt16 := do
  let w ← get
  if w.position < start then
    throw (.truncated start 0 0 "trailer start beyond written bytes")
  let c := Checksum.ofBytes (w.written.drop start)
  discard (put .uint16 c)
  return c

/-- What a writer can be asked to append. -/
inductive Op where
  | put (k : Kind) (v : k.Native)
  | putValue (v : Value)
  | putArrayHeader (n : ArrayLength)
  | putMany (k : Kind) (vs : List k.Native)
  | putTrailer (start : Nat)

/-- The answer to a request: the checksum of a trailer, the size of anything else. -/
def Op.run : Op → Write Nat
  | .put k v => Writer.put k v
  | .putValue v => Writer.putValue v
  | .putArrayHeader n => Writer.putArrayHeader n
  | .putMany k vs => Writer.putMany k vs
  | .putTrailer start => (fun c => c.toNat) <$> Writer.putTrailer start

/-- Bytes that a request appends when it succeeds. -/
def Op.size : Op → Nat
  | .put k _ => k.encodedLen
  | .putValue v => v.kind.encodedLen
  | .putArrayHeader n => n.encodedLen
  | .putMany k vs => vs.length * k.encodedLen
  | .putTrailer _ => Trailer.len

/-- Writer and answer after one step. -/
def step (w : Writer) (m : Write α) : Writer × Except WireError α :=
  outcome m w

end Writer

end TaggedWire
