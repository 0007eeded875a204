import TaggedWire.ArrayHeader
import TaggedWire.Run

/-!
Readers: a position in a byte string that moves over whole items. A step that fails does not move
it. A reader may start beyond the end of its input, where nothing can be read.
-/
namespace TaggedWire

structure Reader where
  input : Bytes
  position : Nat

abbrev Read := EStateM WireError Reader

namespace Reader

def ofBytes (input : Bytes) : Reader := ⟨input, 0⟩

def remaining (r : Reader) : Nat :=
  r.input.length - r.position

def isEmpty (r : Reader) : Bool :=
  r.remaining == 0

/-- The bytes not yet read. -/
def rest (r : Reader) : Bytes :=
  r.input.drop r.position

/-- Takes an item whose result comes with the position after it. -/
def advance (f : Reader → Except WireError (α × Nat)) : Read α := do
  let r ← get
  match f r with
  | .ok (a, next) =>
    set { r with position := next }
    return a
  | .error e => throw e

def take (k : Kind) : Read k.Native :=
  advance fun r => (fun v => (v, r.position + k.encodedLen)) <$> k.decodeAt r.input r.position

def takeValue (k : Kind) : Read Value :=
  advance fun r => (fun v => (v, r.position + k.encodedLen)) <$> Value.decodeAt k r.input r.position

def takeArrayHeader : Read ArrayLength :=
  advance fun r => ArrayHeader.decodeAt r.input r.position

def expectArrayHeader (expected : ArrayLength) : Read Unit :=
  advance fun r => (fun next => ((), next)) <$> ArrayHeader.expectAt r.input r.position expected

/-- Takes a run of `n` elements. -/
def takeMany (k : Kind) (n : Nat) : Read (List k.Native) :=
  advance fun r => Run.decodeAt k r.input r.position n

/-- Takes a run into the places of `out`, and moves once all of them are filled. -/
def takeManyInto (k : Kind) (out : List k.Native) (r : Reader) :
    Reader × List k.Native × Except WireError Unit :=
  match Run.decodeInto k r.input r.position out with
  | (out, .ok next) => ({ r with position := next }, out, .ok ())
  | (out, .error e) => (r, out, .error e)

/-- The size of the input, if all of it was read. -/
def finish (r : Reader) : Except WireError Nat :=
  if r.position = r.input.length then .ok r.position
  else .error (.trailingBytes r.position r.input.length)

/-- What a reader can be asked to take. -/
inductive Op where
  | take (k : Kind)
  | takeValue (k : Kind)
  | takeArrayHeader
  | expectArrayHeader (expected : ArrayLength)
  | takeMany (k : Kind) (n : Nat)

/-- An item that was taken. -/
inductive Item where
  | native (k : Kind) (v : k.Native)
  | value (v : Value)
  | header (n : ArrayLength)
  | expected
  | run (k : Kind) (vs : List k.Native)

def Op.run : Op → Read Item
  | .take k => Item.native k <$> Reader.take k
  | .takeValue k => Item.value <$> Reader.takeValue k
  | .takeArrayHeader => Item.header <$> Reader.takeArrayHeader
  | .expectArrayHeader n => (fun _ => Item.expected) <$> Reader.expectArrayHeader n
  | .takeMany k n => Item.run k <$> Reader.takeMany k n

/-- Reader and answer after one step. -/
def step (r : Reader) (m : Read α) : Reader × Except WireError α :=
  outcome m r

end Reader

end TaggedWire
