import TaggedWire.Error

/-!
Decoding policies: an optional limit on the size of an input, and how strictly a message is checked.
-/
namespace TaggedWire

structure DecodePolicy where
  /-- Compare the trailer of messages that carry one. -/
  verifyChecksum : Bool := true
  /-- Accept bytes after the end of a message. -/
  allowTrailingBytes : Bool := false
  deriving DecidableEq

structure Config where
  /-- Larger inputs are refused before any byte is decoded. -/
  maxMessageSize : Option UInt64 := none
  decode : DecodePolicy := {}
  deriving DecidableEq

namespace Config

/-- Refuses a limit that no message meets. -/
def validate (c : Config) : Except WireError Unit :=
  if c.maxMessageSize = some 0 then .error (.config .zeroLimit) else .ok ()

end Config

end TaggedWire
