import TaggedWire.Bytes.Size
import TaggedWire.Step

/-!
Ranges of a buffer. A range is read or replaced as a whole or not at all; the checks are in exact
arithmetic, and only the reported sum of offset and size is limited to 64 bits. The same operations
on 64-bit words stand beside the exact ones.
-/
namespace TaggedWire

abbrev Bytes := List UInt8

/-- A change of a buffer in place. A step that fails keeps what it has changed until then. -/
abbrev Edit := EStateM WireError Bytes

namespace Slot

/-- Asks for `size` bytes at `offset` for reading. -/
def check (buf : Bytes) (offset size : Nat) (context : String) : Except WireError Unit :=
  if buf.length < offset + size then
    .error (.truncated offset size (buf.length - offset) context)
  else .ok ()

/-- Asks for a range for reading, with all sums and differences in 64-bit words. -/
def checkWord (buf : Bytes) (offset size : UInt64) (context : String) : Except WireError Unit :=
  if buf.length.toUInt64 < addSaturating offset size then
    let available := subSaturating buf.length.toUInt64 offset
    .error (.truncated offset.toNat size.toNat available.toNat context)
  else .ok ()

/-- The `size` bytes at `offset`. -/
def slice (buf : Bytes) (offset size : Nat) (context : String) : Except WireError Bytes := do
  check buf offset size context
  return (buf.drop offset).take size

/-- The buffer with the range at `offset` replaced; no other byte changes. -/
def splice (buf : Bytes) (offset : Nat) (new : Bytes) : Bytes :=
  buf.take offset ++ new ++ buf.drop (offset + new.length)

/-- Passes the `size` bytes at `offset` through `f` and puts the result in their place. -/
def modify (offset size : Nat) (context : String) (f : Bytes → Bytes) : Edit Unit := do
  let buf ← get
  if buf.length < offset + size then
    throw (.bufferTooSmall (saturate (offset + size)) buf.length context)
  else set (splice buf offset (f ((buf.drop offset).take size)))

/-- Passes a range through `f`, with the range checked in 64-bit words. The check saturates. -/
def modifyWord (offset size : UInt64) (context : String) (f : Bytes → Bytes) : Edit Unit := do
  let buf ← get
  let last := addSaturating offset size
  if buf.length.toUInt64 < last then throw (.bufferTooSmall last.toNat buf.length context)
  else set (splice buf offset.toNat (f ((buf.drop offset.toNat).take size.toNat)))

/-- Writes `new` at `offset`. -/
def write (offset : Nat) (new : Bytes) (context : String) : Edit Unit :=
  modify offset new.length context (fun _ => new)

theorem length_splice {buf new : Bytes} {offset : Nat} (h : offset + new.length ≤ buf.length) :
    (splice buf offset new).length = buf.length := by
  simp only [splice, List.length_append, List.length_take, List.length_drop]
  omega

section

variable {buf : Bytes} {offset size : Nat} {context : String} {f : Bytes → Bytes}

theorem check_of_le (h : offset + size ≤ buf.length) : check buf offset size context = .ok () :=
  if_neg (Nat.not_lt.mpr h)

theorem check_of_lt (h : buf.length < offset + size) :
    check buf offset size context =
      .error (.truncated offset size (buf.length - offset) context) :=
  if_pos h

theorem outcome_modify_of_le (h : offset + size ≤ buf.length) :
    outcome (modify offset size context f) buf =
      (splice buf offset (f ((buf.drop offset).take size)), .ok ()) := by
  change outcome (ite _ _ _) buf = _
  rw [if_neg (Nat.not_lt.mpr h)]
  rfl

theorem outcome_modify_of_lt (h : buf.length < offset + size) :
    outcome (modify offset size context f) buf =
      (buf, .error (.bufferTooSmall (saturate (offset + size)) buf.length context)) := by
  change outcome (ite _ _ _) buf = _
  rw [if_pos h]
  rfl

end

section word

variable {buf : Bytes} {offset size : UInt64} {context : String}

theorem toNat_length_toUInt64 (hbuf : buf.length ≤ maxObject) :
    buf.length.toUInt64.toNat = buf.length :=
  toNat_toUInt64 (Nat.lt_of_le_of_lt hbuf (by decide))

/-- The check of a range is exact, because no buffer reaches the largest word. -/
theorem lt_addSaturating_iff (hbuf : buf.length ≤ maxObject) :
    buf.length.toUInt64 < addSaturating offset size ↔
      buf.length < offset.toNat + size.toNat := by
  rw [UInt64.lt_iff_toNat_lt, toNat_length_toUInt64 hbuf, toNat_addSaturating]
  unfold maxObject at hbuf
  unfold saturate
  omega

theorem checkWord_eq (hbuf : buf.length ≤ maxObject) :
    checkWord buf offset size context = check buf offset.toNat size.toNat context := by
  simp only [checkWord, check, lt_addSaturating_iff hbuf, toNat_subSaturating,
    toNat_length_toUInt64 hbuf]

theorem outcome_modifyWord (hbuf : buf.length ≤ maxObject) (f : Bytes → Bytes) :
    outcome (modifyWord offset size context f) buf =
      outcome (modify offset.toNat size.toNat context f) buf := by
  rcases Nat.lt_or_ge buf.length (offset.toNat + size.toNat) with hshort | hroom
  · rw [outcome_modify_of_lt hshort]
    change outcome (ite _ _ _) buf = _
    rw [if_pos ((lt_addSaturating_iff hbuf).mpr hshort), ← toNat_addSaturating]
    rfl
  · rw [outcome_modify_of_le hroom]
    change outcome (ite _ _ _) buf = _
    rw [if_neg (mt (lt_addSaturating_iff hbuf).mp (Nat.not_lt.mpr hroom))]
    rfl

/-- An offset after a range within the buffer does not wrap. -/
theorem toNat_add_of_le (hbuf : buf.length ≤ maxObject)
    (h : offset.toNat + size.toNat ≤ buf.length) :
    (offset + size).toNat = offset.toNat + size.toNat := by
  unfold maxObject at hbuf
  rw [UInt64.toNat_add]
  exact Nat.mod_eq_of_lt (by omega)

end word

end Slot

end TaggedWire
