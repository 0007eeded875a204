import TaggedWire.Proofs.Elementwise
import TaggedWire.Proofs.Layout
import TaggedWire.Proofs.Sizes

/-!
Writes at an offset. An element, a header or a run takes the place of as many bytes as it has, and a
run does so piece by piece. Main statement: if the range lies within the buffer, it gets the bytes
that would be appended and no other byte changes; otherwise nothing changes. Computed in 64-bit
words, offsets near the largest word included, the outcome is the same.
-/
namespace TaggedWire

namespace Run

variable {k : Kind}

theorem overwrite_eq {vs : List k.Native} {slot : Bytes}
    (h : (bytes k vs).length ≤ slot.length) :
    overwrite k vs slot = bytes k vs ++ slot.drop (bytes k vs).length := by
  induction vs generalizing slot with
  | nil => rfl
  | cons v vs ih =>
    rw [bytes_cons, List.length_append, Kind.length_encode] at h ⊢
    have hrest : (bytes k vs).length ≤ (slot.drop k.encodedLen).length := by
      rw [List.length_drop]
      omega
    rw [overwrite, if_neg (by omega), ih hrest, List.drop_drop, List.append_assoc]

end Run

namespace Layout.Item

/-- What is reported as having been at work. -/
def context : Item → String
  | header _ => "array header write"
  | element _ _ => "primitive write"
  | run _ _ _ => "repeated run write"

/-- Writes the item at `offset` and returns the offset after it. -/
def writeAt : Item → Nat → Edit Nat
  | header count, offset => ArrayHeader.writeAt offset count
  | element k v, offset => k.writeAt offset v
  | run k vs _, offset => Run.writeAt k offset vs

/-- Writes the item at `offset`, computed in 64-bit words. -/
def writeWord : Item → UInt64 → Edit UInt64
  | header count, offset => ArrayHeader.writeWord offset count
  | element k v, offset => k.writeWord offset v
  | run k vs _, offset => Run.writeWord k offset vs

/-- Bytes in memory of what the item is made from. -/
def memorySize : Item → Nat
  | header _ => 4
  | element k _ => k.memorySize
  | run k vs _ => vs.length * k.memorySize

/-- The size of the item, computed in 64-bit words. -/
def sizeWord : Item → UInt64
  | header count => count.encode.length.toUInt64
  | element k _ => k.encodedLen.toUInt64
  | run k vs _ => vs.length.toUInt64 * k.encodedLen.toUInt64

/-- Puts the item over the range that it was given; only a run looks at what the range holds. -/
def overwrite : Item → Bytes → Bytes
  | header count, _ => count.encode
  | element k v, _ => k.encode v
  | run k vs _, slot => Run.overwrite k vs slot

theorem toNat_sizeWord {i : Item} (h : i.memorySize ≤ maxObject) :
    i.sizeWord.toNat = i.bytes.length := by
  cases i with
  | header count =>
    have hle := ArrayHeader.encodedLen_le count.val
    rw [ArrayHeader.encodedLen_val] at hle
    exact toNat_toUInt64 (Nat.lt_of_le_of_lt hle (by decide))
  | element k v =>
    rw [bytes, Kind.length_encode]
    exact toNat_toUInt64 (Nat.lt_of_le_of_lt k.encodedLen_le (by decide))
  | run k vs nonempty =>
    rw [bytes, Run.length_bytes]
    exact k.toNat_runWord h

theorem overwrite_of_length {i : Item} {slot : Bytes} (h : slot.length = i.bytes.length) :
    i.overwrite slot = i.bytes := by
  cases i with
  | header count => rfl
  | element k v => rfl
  | run k vs nonempty =>
    rw [bytes] at h ⊢
    rw [overwrite, Run.overwrite_eq (Nat.le_of_eq h.symm), List.drop_of_length_le (Nat.le_of_eq h),
      List.append_nil]

theorem writeAt_eq (i : Item) (offset : Nat) :
    i.writeAt offset =
      (fun _ => offset + i.bytes.length) <$>
        Slot.modify offset i.bytes.length i.context i.overwrite := by
  cases i with
  | header count =>
    rw [bytes, ArrayLength.length_encode]
    simp only [writeAt, ArrayHeader.writeAt, Slot.write, ArrayLength.length_encode]
    rfl
  | element k v =>
    rw [bytes, Kind.length_encode]
    simp only [writeAt, Kind.writeAt, Slot.write, Kind.length_encode]
    rfl
  | run k vs nonempty =>
    rw [bytes, Run.length_bytes]
    simp only [writeAt, Run.writeAt, List.isEmpty_eq_false_iff.mpr nonempty]
    rfl

theorem writeWord_eq (i : Item) (offset : UInt64) :
    i.writeWord offset =
      (fun _ => offset + i.sizeWord) <$>
        Slot.modifyWord offset i.sizeWord i.context i.overwrite := by
  cases i with
  | header count => rfl
  | element k v => rfl
  | run k vs nonempty =>
    simp only [writeWord, Run.writeWord, List.isEmpty_eq_false_iff.mpr nonempty]
    rfl

section

variable {i : Item} {buf : Bytes}

theorem outcome_writeAt_of_le {offset : Nat} (h : offset + i.bytes.length ≤ buf.length) :
    outcome (i.writeAt offset) buf =
      (buf.take offset ++ i.bytes ++ buf.drop (offset + i.bytes.length),
        .ok (offset + i.bytes.length)) := by
  have hslot : ((buf.drop offset).take i.bytes.length).length = i.bytes.length := by
    rw [List.length_take, List.length_drop]
    omega
  rw [writeAt_eq, outcome_map, Slot.outcome_modify_of_le h, overwrite_of_length hslot]
  rfl

theorem outcome_writeAt_of_lt {offset : Nat} (h : buf.length < offset + i.bytes.length) :
    outcome (i.writeAt offset) buf =
      (buf, .error (.bufferTooSmall (saturate (offset + i.bytes.length)) buf.length
        i.context)) := by
  rw [writeAt_eq, outcome_map, Slot.outcome_modify_of_lt h]
  rfl

theorem outcome_writeWord (offset : UInt64) (hbuf : buf.length ≤ maxObject)
    (hitem : i.memorySize ≤ maxObject) :
    outcome (UInt64.toNat <$> i.writeWord offset) buf =
      outcome (i.writeAt offset.toNat) buf := by
  have hsize := toNat_sizeWord hitem
  rw [writeAt_eq, writeWord_eq, outcome_map, outcome_map, outcome_map,
    Slot.outcome_modifyWord hbuf, hsize]
  rcases Nat.lt_or_ge buf.length (offset.toNat + i.bytes.length) with hshort | hroom
  · rw [Slot.outcome_modify_of_lt hshort]
    rfl
  · -- only the offset after the range could have wrapped
    have hnext := Slot.toNat_add_of_le hbuf (hsize.symm ▸ hroom)
    rw [Slot.outcome_modify_of_le hroom]
    simp only [Functor.map, Except.map, hnext, hsize]

end

/-- What is written at an offset are the bytes that a growing writer appends. They replace the range
that they need, and the offset after it is returned; where the range does not lie within the buffer,
this is reported and nothing is written. The same comes out of 64-bit words, for every buffer and
every item that lie in memory. An empty run is refused, and the size of a run never wraps. -/
theorem writeAt_range_or_nothing :
    (∀ (i : Item) (buf : Bytes) (offset : UInt64),
      (∀ out : Bytes, (Writer.growing out).step i.op.run =
        (Writer.growing (out ++ i.bytes), .ok i.bytes.length)) ∧
      (offset.toNat + i.bytes.length ≤ buf.length →
        outcome (i.writeAt offset.toNat) buf =
          (buf.take offset.toNat ++ i.bytes ++ buf.drop (offset.toNat + i.bytes.length),
            .ok (offset.toNat + i.bytes.length))) ∧
      (buf.length < offset.toNat + i.bytes.length →
        outcome (i.writeAt offset.toNat) buf =
          (buf, .error (.bufferTooSmall (saturate (offset.toNat + i.bytes.length)) buf.length
            i.context))) ∧
      (buf.length ≤ maxObject → i.memorySize ≤ maxObject →
        outcome (UInt64.toNat <$> i.writeWord offset) buf =
          outcome (i.writeAt offset.toNat) buf)) ∧
    (∀ (k : Kind) (vs : List k.Native) (h : vs ≠ []), Run.encode k vs = .ok (run k vs h).bytes) ∧
    (∀ (k : Kind) (buf out : Bytes) (offset : Nat),
      Run.encode k [] = .error (.zeroLength "repeated run") ∧
      (Writer.growing out).step (Writer.Op.putMany k []).run =
        (Writer.growing out, .error (.zeroLength "repeated run")) ∧
      outcome (Run.writeAt k offset []) buf =
        (buf, .error (.zeroLength "repeated run"))) ∧
    ∀ (k : Kind) (n : Nat), n * k.memorySize ≤ maxObject →
      (n.toUInt64 * k.encodedLen.toUInt64).toNat = n * k.encodedLen := by
  refine ⟨?_, ?_, ?_, fun k _ => k.toNat_runWord⟩
  · intro i buf offset
    refine ⟨?_, outcome_writeAt_of_le, outcome_writeAt_of_lt, outcome_writeWord offset⟩
    intro out
    have happends := i.appends_op out
    rw [← i.length_bytes] at happends
    exact Writer.step_of_fits happends (Writer.fits_growing out _)
  · intro k vs h
    exact Run.encode_of_ne_nil h
  · intro k buf out offset
    exact ⟨rfl, Writer.step_of_refused (.emptyRun k), rfl⟩

end Layout.Item

end TaggedWire
