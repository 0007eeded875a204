import TaggedWire.Message.Builder
import TaggedWire.Message.Decoded

/-!
Events that operations report to a log. An event is a value computed from what the operation was
given and what it answered; nothing is written anywhere.
-/
namespace TaggedWire

inductive Level where
  | debug
  | warn
  deriving DecidableEq

inductive Event where
  | built (message : String) (result : Built)
  | parsed (message : String) (len : Nat)
  | refused (message : String) (error : WireError) (input : Bytes)
  | trailerRefused (error : WireError) (len : Nat)

/-- What stands beside the text of an event. -/
inductive Detail where
  | text (s : String)
  | number (n : Nat)

namespace Event

/-- A damaged message is worth a warning; everything else is for debugging. -/
def level : Event → Level
  | refused _ (.checksumMismatch _ _ _) _ => .warn
  | _ => .debug

def text : Event → String
  | built _ _ => "Built message"
  | parsed _ _ => "Parsed message"
  | refused _ (.checksumMismatch _ _ _) _ => "Discarding corrupted message"
  | refused _ _ _ => "Message decode failed"
  | trailerRefused _ _ => "Trailer verification failed"

/-- An optional checksum in diagnostics. -/
def checksumDetail : Option UInt16 → String
  | some c => s!"Some({c.toNat})"
  | none => "None"

/-- Named details in the order in which they are reported. -/
def details : Event → List (String × Detail)
  | built message result =>
    [("message", .text message), ("len", .number result.bytes.length),
      ("checksum", .text (checksumDetail result.checksum)), ("bytes", .text (hex result.bytes))]
  | parsed message len => [("message", .text message), ("len", .number len)]
  | refused message error input =>
    [("message", .text message), ("error", .text error.message), ("bytes", .text (hex input))]
  | trailerRefused error len => [("error", .text error.message), ("len", .number len)]

/-- A message that was built is reported; a failure is not. -/
def ofBuild (s : Schema) : Except WireError Built → List Event
  | .ok result => [built s.name result]
  | .error _ => []

/-- The outcome of parsing is always reported. -/
def ofParse (s : Schema) (input : Bytes) : Except WireError Decoded → List Event
  | .ok d => [parsed s.name d.len]
  | .error e => [refused s.name e input]

/-- A trailer that does not verify is reported; one that does is not. -/
def ofVerify (bytes : Bytes) : List Event :=
  match Trailer.check bytes with
  | .ok _ => []
  | .error e => [trailerRefused e bytes.length]

end Event

end TaggedWire
