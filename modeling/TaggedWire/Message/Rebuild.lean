import TaggedWire.Message.Builder
import TaggedWire.Message.Decoded

/-!
From a decoded message back to a builder: every decoded field is set by its name.
-/
namespace TaggedWire

/-- The requests that give a builder the values of a decoded message. -/
def Decoded.assignments (d : Decoded) : List Builder.Op :=
  d.fields.map (fun f => .setValues f.field.name f.values)

/-- A builder of the same schema with the values of a decoded message. -/
def Builder.ofDecoded (d : Decoded) : Except WireError Builder :=
  (Builder.new d.schema).applyAll d.assignments

end TaggedWire
