import TaggedWire.Proofs.Corruption
import TaggedWire.Proofs.Period

/-!
Errors of two bits. The second flipped bit hides the first only if the shifts between them bring the
first back to its place, which takes a whole period. Main statement: in a message of up to 4096
bytes no two flipped bits pass.
-/
namespace TaggedWire

/-- The bytes with one bit flipped; places are counted from the most significant bit of the first
byte, and a place behind the last byte flips nothing. -/
def flipBit (bytes : Bytes) (i : Nat) : Bytes :=
  bytes.modify (i / 8) (· ^^^ UInt8.ofNat (2 ^ (7 - i % 8)))

@[simp] theorem length_flipBit (bytes : Bytes) (i : Nat) :
    (flipBit bytes i).length = bytes.length :=
  List.length_modify _ _ _

theorem corrupt_flipBit {message error : Bytes} (hlen : error.length = message.length) (i : Nat) :
    corrupt message (flipBit error i) = flipBit (corrupt message error) i := by
  apply List.ext_getElem
  · simp [corrupt, hlen]
  · intro k _ _
    simp only [corrupt, flipBit, List.getElem_zipWith, List.getElem_modify]
    split
    · exact (UInt8.xor_assoc _ _ _).symm
    · rfl

theorem corrupt_replicate_zero (message : Bytes) :
    corrupt message (List.replicate message.length 0) = message := by
  induction message with
  | nil => rfl
  | cons b message ih =>
    rw [List.length_cons, List.replicate_succ]
    exact congrArg₂ List.cons UInt8.xor_zero ih

namespace Checksum

theorem length_bits (bytes : Bytes) : (bits bytes).length = 8 * bytes.length := by
  induction bytes with
  | nil => rfl
  | cons b bytes ih =>
    rw [bits, List.flatMap_cons, List.length_append, length_byteBits, List.length_cons]
    rw [bits] at ih
    omega

theorem getElem?_bits (bytes : Bytes) (i : Nat) :
    (bits bytes)[i]? = bytes[i / 8]?.map fun b => b.toNat.testBit (7 - i % 8) := by
  induction bytes generalizing i with
  | nil => rfl
  | cons b bytes ih =>
    have hcons : bits (b :: bytes) = byteBits b ++ bits bytes := List.flatMap_cons
    rw [hcons]
    by_cases hi : i < 8
    · rw [List.getElem?_append_left (by rw [length_byteBits]; exact hi), byteBits,
        List.getElem?_map, List.getElem?_range hi, Nat.div_eq_of_lt hi, Nat.mod_eq_of_lt hi]
      rfl
    · obtain ⟨j, rfl⟩ := Nat.exists_eq_add_of_le (Nat.le_of_not_lt hi)
      rw [List.getElem?_append_right (by rw [length_byteBits]; omega), length_byteBits,
        Nat.add_sub_cancel_left, ih, Nat.add_comm 8 j, Nat.add_div_right j (by decide),
        Nat.add_mod_right, List.getElem?_cons_succ]

theorem bits_flipBit (bytes : Bytes) (i : Nat) :
    bits (flipBit bytes i) = (bits bytes).modify i not := by
  apply List.ext_getElem?
  intro k
  rw [List.getElem?_modify, getElem?_bits, getElem?_bits, flipBit, List.getElem?_modify]
  cases bytes[k / 8]? with
  | none => rfl
  | some b =>
    have hpower : (UInt8.ofNat (2 ^ (7 - i % 8))).toNat = 2 ^ (7 - i % 8) := by
      rw [UInt8.toNat_ofNat']
      exact Nat.mod_eq_of_lt (Nat.pow_lt_pow_right (by decide) (by omega))
    simp only [Option.map_eq_map, Option.map_some, Option.some.injEq]
    by_cases hbyte : i / 8 = k / 8
    · rw [if_pos hbyte, UInt8.toNat_xor, hpower, Nat.testBit_xor, Nat.testBit_two_pow]
      by_cases hplace : i = k
      · simp [hplace]
      · have hother : ¬ 7 - i % 8 = 7 - k % 8 := by omega
        simp [hplace, hother]
    · have hother : ¬ i = k := fun h => hbyte (by rw [h])
      rw [if_neg hbyte, if_neg hother]

theorem count_bits_flipBit {bytes : Bytes} {i : Nat} (h : (bits bytes)[i]? = some false) :
    (bits (flipBit bytes i)).count true = (bits bytes).count true + 1 := by
  obtain ⟨hi, hbit⟩ := List.getElem?_eq_some_iff.mp h
  rw [bits_flipBit, List.modify_eq_set_get _ hi, List.count_set hi, List.get_eq_getElem, hbit]
  simp

theorem bits_replicate_zero (n : Nat) :
    bits (List.replicate n 0) = List.replicate (8 * n) false := by
  have hbyte : byteBits 0 = List.replicate 8 false := by decide
  rw [bits, List.flatMap_replicate, hbyte, List.flatten_replicate_replicate, Nat.mul_comm]

/-- Between two set bits that leave the register empty lies a whole period. -/
theorem iterate_shift_of_absorb {front middle back : List Bool} (hfront : true ∉ front)
    (hmiddle : true ∉ middle) (hback : true ∉ back)
    (hzero : absorb 0 (front ++ true :: (middle ++ true :: back)) = 0) :
    shift^[middle.length + 1] (incoming true) = incoming true := by
  have hclear : ∀ {bs : List Bool}, true ∉ bs → ∀ b ∈ bs, b = false := by
    intro bs hbs b hb
    cases b with
    | false => rfl
    | true => exact absurd hb hbs
  rw [absorb_append, absorb_of_clear (hclear hfront), iterate_shift_zero, absorb_cons,
    UInt16.zero_xor, absorb_append, absorb_of_clear (hclear hmiddle), absorb_cons,
    absorb_of_clear (hclear hback), iterate_shift_eq_zero_iff] at hzero
  have hsum := shift_injective (hzero.trans shift_zero.symm)
  rw [Function.iterate_succ_apply]
  exact UInt16.xor_eq_zero_iff.mp hsum

theorem count_ne_two_of_absorb {bs : List Bool} (hlen : bs.length ≤ 32767)
    (hzero : absorb 0 bs = 0) : bs.count true ≠ 2 := by
  intro hcount
  -- cut at the first set bit, and what follows it at the second; nothing is set elsewhere
  have hfirst : true ∈ bs := List.count_pos_iff.mp (by omega)
  obtain ⟨front, rest, rfl, hfront⟩ := List.eq_append_cons_of_mem hfirst
  rw [List.count_append, List.count_cons_self, List.count_eq_zero.mpr hfront] at hcount
  have hsecond : true ∈ rest := List.count_pos_iff.mp (by omega)
  obtain ⟨middle, back, rfl, hmiddle⟩ := List.eq_append_cons_of_mem hsecond
  rw [List.count_append, List.count_cons_self, List.count_eq_zero.mpr hmiddle] at hcount
  have hback : true ∉ back := List.count_eq_zero.mp (by omega)
  simp only [List.length_append, List.length_cons] at hlen
  exact iterate_shift_incoming_ne (Nat.succ_pos _) (by omega)
    (iterate_shift_of_absorb hfront hmiddle hback hzero)

/-- An error that spares the tag and has no effect on an empty register does not consist of two bits
of a short message. -/
theorem count_ne_two_of_no_effect {front : Bytes} {hi lo : UInt8}
    (hlen : (front ++ [0, hi, lo]).length ≤ 4096)
    (hnone : update 0 (front ++ [hi, lo]) = 0) :
    (bits (front ++ [0, hi, lo])).count true ≠ 2 := by
  have hfed : (bits (front ++ [hi, lo])).length ≤ 32767 := by
    rw [length_bits]
    simp only [List.length_append, List.length_cons, List.length_nil] at hlen ⊢
    omega
  rw [update_eq_absorb] at hnone
  rw [count_bits_spared]
  exact count_ne_two_of_absorb hfed hnone

/-- Flipping two bits is adding an error of weight two. -/
theorem exists_error_of_flips (message : Bytes) {i j : Nat} (hi : i < 8 * message.length)
    (hj : j < 8 * message.length) (hij : i ≠ j) :
    ∃ error, error.length = message.length ∧ (bits error).count true = 2 ∧
      corrupt message error = flipBit (flipBit message i) j := by
  have hclear : ∀ k < 8 * message.length,
      (bits (List.replicate message.length 0))[k]? = some false := by
    intro k hk
    rw [bits_replicate_zero, List.getElem?_replicate_of_lt hk]
  have hsecond : (bits (flipBit (List.replicate message.length 0) i))[j]? = some false := by
    rw [bits_flipBit, List.getElem?_modify, hclear j hj]
    simp [hij]
  refine ⟨flipBit (flipBit (List.replicate message.length 0) i) j, by simp, ?_, ?_⟩
  · rw [count_bits_flipBit hsecond, count_bits_flipBit (hclear i hi), bits_replicate_zero,
      List.count_replicate]
    rfl
  · rw [corrupt_flipBit (by simp), corrupt_flipBit (by simp), corrupt_replicate_zero]

end Checksum

namespace Trailer

/-- Two flipped bits never pass in a message of up to 4096 bytes, wherever they lie. -/
theorem verify_of_two_flips {message : Bytes} {c : UInt16} {i j : Nat}
    (hmessage : check message = .ok c) (hsize : message.length ≤ 4096)
    (hi : i < 8 * message.length) (hj : j < 8 * message.length) (hij : i ≠ j) :
    verify (flipBit (flipBit message i) j) = false := by
  obtain ⟨error, hlen, hcount, herror⟩ := Checksum.exists_error_of_flips message hi hj hij
  rw [← herror]
  refine Bool.eq_false_iff.mpr fun hpass => ?_
  obtain ⟨front, hi', lo', rfl, hnone⟩ :=
    (verify_corrupt_iff (verify_of_check hmessage) hlen).mp hpass
  exact Checksum.count_ne_two_of_no_effect (hlen ▸ hsize) hnone hcount

/-- One bit of the header and one of the stored checksum. -/
theorem verify_of_two_flips_apart :
    check [0x92, 0x01, 0xCD, 0xEA, 0x68] = .ok 0xEA68 ∧
      verify (flipBit (flipBit [0x92, 0x01, 0xCD, 0xEA, 0x68] 3) 38) = false := by
  have hcheck : check [0x92, 0x01, 0xCD, 0xEA, 0x68] = .ok 0xEA68 := by decide +kernel
  exact ⟨hcheck, verify_of_two_flips hcheck (by decide) (by decide) (by decide) (by decide)⟩

end Trailer

end TaggedWire
