import TaggedWire.Text.Extender
import TaggedWire.Text.Hidden

/-!
Which characters show by themselves.
-/
namespace TaggedWire

def inRanges (ranges : Array (Nat × Nat)) (n : Nat) : Bool :=
  ranges.any (fun r => r.1 ≤ n && n ≤ r.2)

def isPrintable (c : Char) : Bool :=
  !inRanges hiddenRanges c.toNat

/-- The character is a mark that attaches to the one before it. -/
def isExtender (c : Char) : Bool :=
  inRanges extenderRanges c.toNat

end TaggedWire
