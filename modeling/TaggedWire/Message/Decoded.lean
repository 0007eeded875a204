import TaggedWire.Config
import TaggedWire.Schema.Basic

/-!
Decoding of whole messages: the header must announce the schema's elements, the length is judged
once, and then only the content of the bytes can be wrong. A decoded message has the fields of its
schema, in order.
-/
namespace TaggedWire

structure DecodedField where
  field : Field
  values : List Value
  deriving DecidableEq

structure Decoded where
  schema : Schema
  fields : List DecodedField
  /-- The trailer's checksum, if messages of the schema have a trailer. -/
  checksum : Option UInt16
  /-- Bytes of the message, trailing bytes not counted. -/
  len : Nat
  deriving DecidableEq

namespace Schema

/-- Refuses an input above the limit of the configuration. -/
def checkLimit (c : Config) (input : Bytes) : Except WireError Unit :=
  match c.maxMessageSize with
  | none => .ok ()
  | some max =>
    if max.toNat < input.length then .error (.messageTooLarge input.length max.toNat) else .ok ()

/-- Finds the message in the input: the offset of its first field and its bytes. -/
def frame (s : Schema) (c : Config) (input : Bytes) : Except WireError (Nat × Bytes) := do
  let bodyStart ← ArrayHeader.expectAt input 0 s.headerLength
  let len := bodyStart + s.bodyLen + s.trailerLen
  if input.length < len then
    throw (.truncated 0 len input.length "message body")
  if len < input.length && !c.decode.allowTrailingBytes then
    throw (.trailingBytes len input.length)
  return (bodyStart, input.take len)

/-- Reads `n` values from the front of `rest`, which starts at `offset`; `done` holds those already
read, last one first. What remains comes with its offset. -/
def readValues (k : Kind) :
    Nat → Nat → Bytes → List Value → Except WireError (List Value × Nat × Bytes)
  | 0, offset, rest, done => .ok (done.reverse, offset, rest)
  | n + 1, offset, rest, done =>
    match Value.read k offset rest with
    | .error e => .error e
    | .ok (v, rest) => readValues k n (offset + k.encodedLen) rest (v :: done)

/-- Reads the fields from the front of `rest`, which starts at `offset`; what remains comes with its
offset. -/
def readFields : List Field → Nat → Bytes → Except WireError (List DecodedField × Nat × Bytes)
  | [], offset, rest => .ok ([], offset, rest)
  | f :: fs, offset, rest => do
    let (values, offset, rest) ← readValues f.kind f.count offset rest []
    let (fields, next, rest) ← readFields fs offset rest
    return (⟨f, values⟩ :: fields, next, rest)

/-- Decodes a message of the right length whose fields start at `bodyStart`. The trailer is compared
first if asked for, then the fields are read, then the trailer's tag is judged. -/
def contents (s : Schema) (verify : Bool) (bodyStart : Nat) (message : Bytes) :
    Except WireError Decoded := do
  let verified ←
    if s.appendChecksum && verify then some <$> Trailer.check message else pure none
  let (fields, next, rest) ← readFields s.fields bodyStart (message.drop bodyStart)
  let (checksum, next) ←
    if s.appendChecksum then do
      let (stored, _) ← Kind.read .uint16 next rest
      pure (some (verified.getD stored), next + Kind.uint16.encodedLen)
    else pure (none, next)
  if next = message.length then return ⟨s, fields, checksum, next⟩
  else throw (.trailingBytes next message.length)

/-- Decodes the message at the front of the input. -/
def parse (s : Schema) (c : Config) (input : Bytes) : Except WireError Decoded := do
  checkLimit c input
  let (bodyStart, message) ← s.frame c input
  s.contents c.decode.verifyChecksum bodyStart message

end Schema

namespace Decoded

def isEmpty (d : Decoded) : Bool :=
  d.len == 0

def field? (d : Decoded) (name : String) : Option DecodedField :=
  d.fields.find? (fun f => f.field.name == name)

/-- The field of that name, if it has the asked kind. -/
def fieldOfKind (d : Decoded) (name : String) (k : Kind) : Except WireError DecodedField :=
  match d.field? name with
  | none => .error (.unknownField name d.schema.name)
  | some f => if f.field.kind = k then .ok f else .error (.kindMismatch name f.field.kind k)

/-- A value of a field as the asked kind. -/
def convert (f : DecodedField) (k : Kind) (v : Value) : Except WireError k.Native :=
  match v.as? k with
  | some n => .ok n
  | none => .error (.kindMismatch f.field.name f.field.kind v.kind)

/-- The only value of a field. -/
def getAs (d : Decoded) (name : String) (k : Kind) : Except WireError k.Native := do
  let f ← d.fieldOfKind name k
  match f.values with
  | [v] => convert f k v
  | vs => throw (.elementCountMismatch name 1 vs.length)

/-- All values of a field. -/
def getManyAs (d : Decoded) (name : String) (k : Kind) : Except WireError (List k.Native) := do
  let f ← d.fieldOfKind name k
  f.values.mapM (convert f k)

end Decoded

end TaggedWire
