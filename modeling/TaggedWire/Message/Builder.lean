import TaggedWire.Schema.Basic
import TaggedWire.Writer

/-!
Builders: the values of a message are given field by field, in any order and more than once, and the
message is written when every field has its values.
-/
namespace TaggedWire

structure Builder where
  schema : Schema
  /-- The values of each field, in the order of the schema. -/
  values : List (Option (List Value))

/-- One message as it was put on the wire. -/
structure Built where
  bytes : Bytes
  checksum : Option UInt16

namespace Builder

/-- No field has values yet. -/
def new (schema : Schema) : Builder :=
  ⟨schema, schema.fields.map (fun _ => none)⟩

/-- Judges values for a field: first their number, then their kinds in order. -/
def judge (name : String) (f : Field) (vs : List Value) : Except WireError Unit :=
  if vs.length ≠ f.count then .error (.elementCountMismatch name f.count vs.length)
  else match vs.find? (fun v => v.kind != f.kind) with
    | some wrong => .error (.kindMismatch name f.kind wrong.kind)
    | none => .ok ()

/-- A change of a builder. A step that fails keeps what it has changed until then. -/
abbrev Assign := EStateM WireError Builder

/-- Gives a field all its values, replacing earlier ones. -/
def setValues (name : String) (vs : List Value) : Assign Unit := do
  let b ← get
  match b.schema.field? name with
  | none => throw (.unknownField name b.schema.name)
  | some (i, f) =>
    MonadExcept.ofExcept (judge name f vs)
    modify fun b => { b with values := b.values.set i (some vs) }

def set (name : String) (k : Kind) (v : k.Native) : Assign Unit :=
  setValues name [Value.ofNative k v]

def setMany (name : String) (k : Kind) (vs : List k.Native) : Assign Unit :=
  setValues name (vs.map (Value.ofNative k))

def isComplete (b : Builder) : Bool :=
  b.values.all Option.isSome

def encodedSize (b : Builder) : Nat :=
  b.schema.encodedSize

/-- The values of every field, or the first field without any. -/
def complete (b : Builder) : Except WireError (List (List Value)) :=
  (b.schema.fields.zip b.values).mapM fun p =>
    match p.2 with
    | some vs => .ok vs
    | none => .error (.missingField p.1.name)

/-- Writes the message after whatever the writer holds. Nothing is written unless all of it fits;
the trailer covers this message only. -/
def writeTo (b : Builder) : Write Built := do
  let fields ← match b.complete with
    | .ok fields => pure fields
    | .error e => throw e
  Writer.ensure b.encodedSize
  let start := (← get).position
  discard (Writer.putArrayHeader b.schema.headerLength)
  fields.forM Writer.putValues
  let checksum ←
    if b.schema.appendChecksum then some <$> Writer.putTrailer start else pure none
  return ⟨(← get).written.drop start, checksum⟩

def build (b : Builder) : Except WireError Built :=
  (Writer.step (Writer.growing []) b.writeTo).2

/-- Writes the message into the front of `out`. The size is judged before the completeness. -/
def buildInto (b : Builder) (out : Bytes) : Bytes × Except WireError Built :=
  if out.length < b.encodedSize then
    (out, .error (.bufferTooSmall b.encodedSize out.length "message build"))
  else
    let (w, result) := Writer.step (Writer.onStorage out) b.writeTo
    (w.storage, result)

/-- What a builder can be asked to store. -/
inductive Op where
  | set (name : String) (k : Kind) (v : k.Native)
  | setMany (name : String) (k : Kind) (vs : List k.Native)
  | setValues (name : String) (vs : List Value)

def Op.run : Op → Assign Unit
  | .set name k v => Builder.set name k v
  | .setMany name k vs => Builder.setMany name k vs
  | .setValues name vs => Builder.setValues name vs

/-- Builder and answer after one request. -/
def step (b : Builder) (op : Op) : Builder × Except WireError Unit :=
  outcome op.run b

/-- Requests in order, up to the first refused one. -/
def applyAll (b : Builder) (ops : List Op) : Except WireError Builder :=
  match outcome (ops.forM Op.run) b with
  | (b, .ok _) => .ok b
  | (_, .error e) => .error e

end Builder

end TaggedWire
