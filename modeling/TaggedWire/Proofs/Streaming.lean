import Mathlib.Data.List.DropRight
import TaggedWire.Proofs.Register

/-!
The running calculation against the division of bits. Main statement: after any sequence of
requests, the register holds the bit-serial checksum of what was fed since the last reset.
-/
namespace TaggedWire.Checksum

/-- The place at the far end is free after a move, so a bit is put there by adding it. -/
theorem shiftLeft_one_or_one (r : UInt16) : (r <<< 1) ||| (1 : UInt16) = (r <<< 1) ^^^ 1 := by
  apply ext_bit
  intro i hi
  have hor : bit ((r <<< 1) ||| (1 : UInt16)) i = (bit (r <<< 1) i || bit 1 i) := by
    rw [bit, UInt16.toBitVec_or, BitVec.getMsbD_or]
    rfl
  have hone : ∀ j : Fin 15, bit 1 j.val = false := by decide
  rw [hor, bit_xor]
  by_cases hlast : i < 15
  · rw [hone ⟨i, hlast⟩, Bool.or_false, Bool.xor_false]
  · rw [bit_shiftLeft_one, bit_of_ge r (by omega), Bool.false_or, Bool.false_xor]

theorem shiftIn_eq (r : UInt16) (b : Bool) : shiftIn r b = shift r ^^^ (if b then 1 else 0) := by
  have hmoved : (r <<< 1) ||| (if b then 1 else 0 : UInt16) =
      (r <<< 1) ^^^ (if b then 1 else 0) := by
    cases b with
    | false => exact UInt16.or_zero.trans UInt16.xor_zero.symm
    | true => exact shiftLeft_one_or_one r
  unfold shiftIn shift
  dsimp only
  rw [hmoved]
  split
  · rfl
  · ac_rfl

theorem foldl_shiftIn_replicate (r : UInt16) (n : Nat) :
    (List.replicate n false).foldl shiftIn r = shift^[n] r := by
  induction n generalizing r with
  | zero => rfl
  | succ n ih =>
    rw [List.replicate_succ, List.foldl_cons, ih, shiftIn_eq, Function.iterate_succ_apply]
    simp

/-- Sixteen shifts carry a bit from the far end to where it leaves, so entering there sixteen
shifts late is entering at the other end in time. -/
theorem iterate_shift_shiftIn (r : UInt16) (b : Bool) :
    shift^[16] (shiftIn r b) = absorbBit (shift^[16] r) b := by
  have hbit : shift^[16] (if b then 1 else 0) = shift (incoming b) := by
    cases b <;> decide +kernel
  rw [shiftIn_eq, iterate_shift_xor, hbit, ← Function.iterate_succ_apply,
    Function.iterate_succ_apply', ← shift_xor]
  rfl

theorem iterate_shift_foldl_shiftIn (r : UInt16) (bs : List Bool) :
    shift^[16] (bs.foldl shiftIn r) = absorb (shift^[16] r) bs := by
  induction bs generalizing r with
  | nil => rfl
  | cons b bs ih =>
    rw [List.foldl_cons, ih, iterate_shift_shiftIn]
    rfl

/-- The table with its own first register computes the bit-serial checksum. -/
theorem ofBytes_eq_bitSerial (bytes : Bytes) : ofBytes bytes = bitSerial bytes := by
  have hstart : shift^[16] 0xFFFF = start := by decide +kernel
  rw [bitSerial, List.foldl_append, foldl_shiftIn_replicate, iterate_shift_foldl_shiftIn, hstart,
    ← update_eq_absorb]
  rfl

def Op.isUpdate : Op → Bool
  | update _ => true
  | reset => false

/-- What a request feeds. -/
def Op.bytes : Op → Bytes
  | update bytes => bytes
  | reset => []

/-- What is fed after the last reset. -/
def fed (ops : List Op) : Bytes :=
  (ops.rtakeWhile Op.isUpdate).flatMap Op.bytes

theorem run_concat (r : UInt16) (ops : List Op) (op : Op) :
    run r (ops ++ [op]) = op.apply (run r ops) := by
  rw [run, List.foldl_append]
  rfl

theorem run_eq_ofBytes (ops : List Op) : run start ops = ofBytes (fed ops) := by
  induction ops using List.reverseRecOn with
  | nil => rfl
  | append_singleton ops op ih =>
    rw [run_concat, ih, fed, fed]
    cases op with
    | update bytes =>
      rw [List.rtakeWhile_concat_pos _ _ _ rfl, List.flatMap_append, ofBytes, ofBytes,
        update_append]
      simp [Op.apply, Op.bytes]
    | reset =>
      rw [List.rtakeWhile_concat_neg _ _ _ (by simp [Op.isUpdate])]
      rfl

/-- Every run of the calculation ends in the bit-serial checksum of the pieces fed since the last
reset, and so does the checksum of a byte string in one call. -/
theorem run_eq_bitSerial (ops : List Op) :
    run start ops = bitSerial (fed ops) ∧ ∀ bytes, ofBytes bytes = bitSerial bytes :=
  ⟨(run_eq_ofBytes ops).trans (ofBytes_eq_bitSerial _), ofBytes_eq_bitSerial⟩

end TaggedWire.Checksum
