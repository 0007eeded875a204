import TaggedWire.Bytes.Slot

/-!
The message checksum: a sixteen-bit cyclic redundancy check with polynomial `x^16 + x^12 + x^5 + 1`,
most significant bit first, no reflection and no final exclusive or. The register advances a byte at
a time through a table of 256 words.
-/
namespace TaggedWire.Checksum

def polynomial : UInt16 := 0x1021

/-- The register before any byte. It is also the checksum of no bytes. -/
def start : UInt16 := 0x1D0F

/-- One place to the left; the polynomial is added when a one leaves the register. -/
def shift (r : UInt16) : UInt16 :=
  if r &&& 0x8000 = 0 then r <<< 1 else (r <<< 1) ^^^ polynomial

/-- Eight shifts of a byte that stands in the high half of the register. -/
def tableEntry (i : Nat) : UInt16 :=
  Nat.repeat shift 8 (UInt16.ofNat i <<< 8)

def table : Vector UInt16 256 :=
  Vector.ofFn (fun i => tableEntry i.val)

/-- Feeds one byte. -/
def feed (r : UInt16) (b : UInt8) : UInt16 :=
  let i := (r >>> 8).toUInt8 ^^^ b
  (r <<< 8) ^^^ table.get ⟨i.toNat, i.toNat_lt⟩

/-- Feeds bytes in order. -/
def update (r : UInt16) (bytes : Bytes) : UInt16 :=
  bytes.foldl feed r

/-- The checksum of a byte string. -/
def ofBytes (bytes : Bytes) : UInt16 :=
  update start bytes

/-- What a running calculation is asked to do. -/
inductive Op where
  | update (bytes : Bytes)
  | reset

def Op.apply (r : UInt16) : Op → UInt16
  | update bytes => Checksum.update r bytes
  | reset => start

/-- The register after a sequence of requests. -/
def run (r : UInt16) (ops : List Op) : UInt16 :=
  ops.foldl Op.apply r

@[simp] theorem update_nil (r : UInt16) : update r [] = r := rfl

theorem update_append (r : UInt16) (a b : Bytes) : update r (a ++ b) = update (update r a) b :=
  List.foldl_append

end TaggedWire.Checksum
