import TaggedWire.Primitive

/-!
Runs: several elements of one kind, each with its own tag. A run is never empty, and it is decoded
in two passes: one judges the tags, and the other stores the elements one by one. `fill` looks up
each element by its offset; `decodeInto` does the same in two walks over the bytes.
-/
namespace TaggedWire.Run

/-- The encodings of the elements, one after the other. -/
def bytes (k : Kind) (vs : List k.Native) : Bytes :=
  vs.flatMap k.encode

@[simp] theorem bytes_nil (k : Kind) : bytes k [] = [] := rfl

@[simp] theorem bytes_cons (k : Kind) (v : k.Native) (vs : List k.Native) :
    bytes k (v :: vs) = k.encode v ++ bytes k vs := List.flatMap_cons

@[simp] theorem length_bytes (k : Kind) (vs : List k.Native) :
    (bytes k vs).length = vs.length * k.encodedLen := by
  induction vs with
  | nil => rw [bytes_nil, List.length_nil, List.length_nil, Nat.zero_mul]
  | cons v vs ih =>
    rw [bytes_cons, List.length_append, Kind.length_encode, ih, List.length_cons, Nat.succ_mul,
      Nat.add_comm]

/-- The bytes of a run; an empty one has no encoding. -/
def encode (k : Kind) (vs : List k.Native) : Except WireError Bytes :=
  if vs.isEmpty then .error (.zeroLength "repeated run") else .ok (bytes k vs)

/-- Puts elements over the front of a byte string, each over one full piece of it. -/
def overwrite (k : Kind) : List k.Native → Bytes → Bytes
  | [], slot => slot
  | v :: vs, slot =>
    if slot.length < k.encodedLen then slot
    else k.encode v ++ overwrite k vs (slot.drop k.encodedLen)

/-- Writes a run at `offset`, element by element, and returns the offset after it. -/
def writeAt (k : Kind) (offset : Nat) (vs : List k.Native) : Edit Nat :=
  if vs.isEmpty then throw (.zeroLength "repeated run")
  else do
    let size := vs.length * k.encodedLen
    Slot.modify offset size "repeated run write" (overwrite k vs)
    return offset + size

/-- Writes a run at `offset`, computed in 64-bit words. -/
def writeWord (k : Kind) (offset : UInt64) (vs : List k.Native) : Edit UInt64 :=
  if vs.isEmpty then throw (.zeroLength "repeated run")
  else do
    let size := vs.length.toUInt64 * k.encodedLen.toUInt64
    Slot.modifyWord offset size "repeated run write" (overwrite k vs)
    return offset + size

/-- A change of places for elements. A step that fails keeps what it has stored until then. -/
abbrev Fill (k : Kind) := EStateM WireError (List k.Native)

/-- Judges the byte at `offset` as a tag. -/
def judgeTag (k : Kind) (buf : Bytes) (offset : Nat) : Except WireError Unit :=
  match buf[offset]? with
  | some t => if k.accepts t then .ok () else .error (.tagMismatch offset k.name t)
  | none => .error (.truncated offset 1 0 k.name)

/-- Judges the tags at `place 0`, `place 1` and so on, up to the first that is refused. -/
def judgeEach (k : Kind) (buf : Bytes) (place : Nat → Nat) (count : Nat) : Except WireError Unit :=
  (List.range count).forM fun i => judgeTag k buf (place i)

/-- Overwrites one place by an element, if that could be decoded. -/
def store {k : Kind} (element : Except WireError k.Native) (i : Nat) : Fill k Unit := do
  let v ← MonadExcept.ofExcept element
  modify fun out => out.set i v

/-- Overwrites one place after the other, up to the first element that cannot be decoded. -/
def storeEach {k : Kind} (element : Nat → Except WireError k.Native) (count : Nat) : Fill k Unit :=
  (List.range count).forM fun i => store (element i) i

/-- Decodes one element into every place and returns the offset after the last one. All tags are
judged before the first place is overwritten. -/
def fill (k : Kind) (buf : Bytes) (offset : Nat) : Fill k Nat := do
  let count := (← get).length
  if count = 0 then throw (.zeroLength "repeated run")
  else
    let size := count * k.encodedLen
    MonadExcept.ofExcept (Slot.check buf offset size "repeated run")
    MonadExcept.ofExcept (judgeEach k buf (fun i => offset + i * k.encodedLen) count)
    storeEach (fun i => k.decodeAt buf (offset + i * k.encodedLen)) count
    return offset + size

/-- Decodes one element into every place, computed in 64-bit words. -/
def fillWord (k : Kind) (buf : Bytes) (offset : UInt64) : Fill k UInt64 := do
  let count := (← get).length
  if count = 0 then throw (.zeroLength "repeated run")
  else
    let width := k.encodedLen.toUInt64
    let size := count.toUInt64 * width
    MonadExcept.ofExcept (Slot.checkWord buf offset size "repeated run")
    MonadExcept.ofExcept (judgeEach k buf (fun i => (offset + i.toUInt64 * width).toNat) count)
    storeEach (fun i => k.decodeWord buf (offset + i.toUInt64 * width)) count
    return offset + size

/-- Judges the tags of the `n` elements at the front of `rest`, which starts at `offset`. -/
def judgeRun (k : Kind) : Nat → Nat → Bytes → Except WireError Unit
  | 0, _, _ => .ok ()
  | _ + 1, offset, [] => .error (.truncated offset 1 0 k.name)
  | n + 1, offset, t :: rest =>
    if k.accepts t then judgeRun k n (offset + k.encodedLen) (rest.drop k.payloadLen)
    else .error (.tagMismatch offset k.name t)

/-- Overwrites places by the elements at the front of `rest`, which starts at `offset`; `done` holds
the places that are overwritten, last one first. An element that cannot be decoded leaves its place
and those behind it alone. -/
def storeRun (k : Kind) (offset : Nat) (rest : Bytes) (done : List k.Native) :
    List k.Native → List k.Native × Except WireError Unit
  | [] => (done.reverse, .ok ())
  | place :: places =>
    match k.read offset rest with
    | .error e => (done.reverseAux (place :: places), .error e)
    | .ok (v, rest) => storeRun k (offset + k.encodedLen) rest (v :: done) places

/-- Decodes into the places of `out`; they come with the offset after the run or the cause. -/
def decodeInto (k : Kind) (buf : Bytes) (offset : Nat) (out : List k.Native) :
    List k.Native × Except WireError Nat :=
  if out.isEmpty then (out, .error (.zeroLength "repeated run"))
  else
    let count := out.length
    let size := count * k.encodedLen
    let rest := buf.drop offset
    match Slot.check buf offset size "repeated run" >>= fun _ => judgeRun k count offset rest with
    | .error e => (out, .error e)
    | .ok _ =>
      let (out, answer) := storeRun k offset rest [] out
      (out, (fun _ => offset + size) <$> answer)

/-- The `n` elements at `offset` and the offset after them. -/
def decodeAt (k : Kind) (buf : Bytes) (offset n : Nat) : Except WireError (List k.Native × Nat) :=
  match decodeInto k buf offset (List.replicate n k.zero) with
  | (vs, .ok next) => .ok (vs, next)
  | (_, .error e) => .error e

end TaggedWire.Run
