import TaggedWire.Checksum.Register

/-!
The checksum as a division of bits: the register starts with all ones, the message is shifted in bit
by bit from its most significant end, and sixteen zero bits follow. Here no table is used and the
incoming bit enters at the low end.
-/
namespace TaggedWire.Checksum

/-- The bits of a byte, most significant first. -/
def byteBits (b : UInt8) : List Bool :=
  (List.range 8).map (fun i => b.toNat.testBit (7 - i))

def bits (bytes : Bytes) : List Bool :=
  bytes.flatMap byteBits

/-- Shifts one bit in at the low end and adds the polynomial when a one leaves at the high end. -/
def shiftIn (r : UInt16) (b : Bool) : UInt16 :=
  let moved := (r <<< 1) ||| (if b then 1 else 0)
  if r &&& 0x8000 = 0 then moved else moved ^^^ polynomial

/-- The remainder of the message followed by sixteen zeros, starting from all ones. -/
def bitSerial (bytes : Bytes) : UInt16 :=
  (bits bytes ++ List.replicate 16 false).foldl shiftIn 0xFFFF

end TaggedWire.Checksum
