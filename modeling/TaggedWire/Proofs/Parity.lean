import Mathlib.Algebra.Ring.Parity
import TaggedWire.Proofs.Corruption

/-!
Errors of odd weight. The polynomial replaces the bit that leaves the register by three others, so a
shift keeps the parity of the register, and absorbing bits adds theirs to it. Main statement: no
error with an odd number of set bits passes.
-/
namespace TaggedWire

namespace Checksum

/-- Whether an odd number of the bits are set. -/
def parity : List Bool → Bool
  | [] => false
  | b :: bs => b ^^ parity bs

theorem parity_append (bs cs : List Bool) : parity (bs ++ cs) = (parity bs ^^ parity cs) := by
  induction bs with
  | nil => simp [parity]
  | cons b bs ih => simp only [List.cons_append, parity, ih, Bool.xor_assoc]

theorem parity_eq_true_iff (bs : List Bool) : parity bs = true ↔ Odd (bs.count true) := by
  induction bs with
  | nil => simp [parity]
  | cons b bs ih =>
    cases b with
    | false => simpa [parity] using ih
    | true =>
      rw [List.count_cons_self, Nat.odd_add_one, ← ih]
      simp [parity]

theorem parity_map_xor (l : List Nat) (f g : Nat → Bool) :
    parity (l.map fun i => f i ^^ g i) = (parity (l.map f) ^^ parity (l.map g)) := by
  induction l with
  | nil => rfl
  | cons i l ih =>
    simp only [List.map_cons, parity, ih, Bool.xor_assoc]
    rw [Bool.xor_left_comm (g i)]

theorem parity_map_and (l : List Nat) (b : Bool) (f : Nat → Bool) :
    parity (l.map fun i => b && f i) = (b && parity (l.map f)) := by
  induction l with
  | nil => exact (Bool.and_false b).symm
  | cons i l ih => simp only [List.map_cons, parity, ih, Bool.and_xor_distrib_left]

theorem parity_row_xor (a b : UInt16) :
    parity (row (a ^^^ b)) = (parity (row a) ^^ parity (row b)) := by
  simp only [row, ← parity_map_xor, ← bit_xor]

theorem parity_row_incoming (b : Bool) : parity (row (incoming b)) = b := by
  cases b <;> decide

/-- The polynomial has three bits, and they stand in for the one that leaves. -/
theorem parity_row_shift (r : UInt16) : parity (row (shift r)) = parity (row r) := by
  have hpolynomial : parity ((List.range 16).map (bit polynomial)) = true := by decide
  -- a seventeenth place is always empty, so the places can be counted from the second one on
  have hmoved : parity (row r) =
      (bit r 0 ^^ parity ((List.range 16).map fun i => bit r (i + 1))) := by
    have hlast : parity ((List.range 17).map (bit r)) = parity (row r) := by
      rw [List.range_succ, List.map_append, parity_append, List.map_singleton,
        bit_of_ge r (Nat.le_refl 16)]
      exact Bool.xor_false _
    rw [← hlast, List.range_succ_eq_map, List.map_cons, List.map_map]
    rfl
  calc
    parity (row (shift r))
      = (parity ((List.range 16).map fun i => bit r (i + 1)) ^^
          parity ((List.range 16).map fun i => bit r 0 && bit polynomial i)) := by
        rw [← parity_map_xor, row, List.map_congr_left fun i _ => bit_shift r i]
    _ = (parity ((List.range 16).map fun i => bit r (i + 1)) ^^ bit r 0) := by
        rw [parity_map_and, hpolynomial, Bool.and_true]
    _ = parity (row r) := by rw [hmoved, Bool.xor_comm]

/-- The register remembers the parity of all that it absorbed. -/
theorem parity_row_absorb (r : UInt16) (bs : List Bool) :
    parity (row (absorb r bs)) = (parity (row r) ^^ parity bs) := by
  induction bs generalizing r with
  | nil => simp [parity]
  | cons b bs ih =>
    rw [absorb_cons, ih, parity_row_shift, parity_row_xor, parity_row_incoming, parity,
      Bool.xor_assoc]

/-- An error that spares the tag and has no effect on an empty register has even weight. -/
theorem not_odd_of_no_effect {front : Bytes} {hi lo : UInt8}
    (hnone : update 0 (front ++ [hi, lo]) = 0) :
    ¬ Odd ((bits (front ++ [0, hi, lo])).count true) := by
  have hempty : parity (row 0) = false := by decide
  have hrow := parity_row_absorb 0 (bits (front ++ [hi, lo]))
  rw [← update_eq_absorb, hnone, hempty, Bool.false_xor] at hrow
  rw [count_bits_spared, ← parity_eq_true_iff, ← hrow]
  exact Bool.false_ne_true

end Checksum

namespace Trailer

/-- An error with an odd number of set bits never passes, wherever in the message they lie. -/
theorem verify_corrupt_of_odd {message error : Bytes} {c : UInt16}
    (hmessage : check message = .ok c) (hlen : error.length = message.length)
    (hodd : Odd ((Checksum.bits error).count true)) :
    verify (corrupt message error) = false := by
  refine Bool.eq_false_iff.mpr fun hpass => ?_
  obtain ⟨front, hi, lo, rfl, hnone⟩ :=
    (verify_corrupt_iff (verify_of_check hmessage) hlen).mp hpass
  exact Checksum.not_odd_of_no_effect hnone hodd

/-- Five flipped bits: two in the covered bytes, one in the tag, two in the stored checksum. -/
theorem verify_corrupt_of_odd_scattered :
    check [0x92, 0x01, 0xCD, 0xEA, 0x68] = .ok 0xEA68 ∧
      verify (corrupt [0x92, 0x01, 0xCD, 0xEA, 0x68] [0x80, 0x10, 0x04, 0x40, 0x01]) = false := by
  have hcheck : check [0x92, 0x01, 0xCD, 0xEA, 0x68] = .ok 0xEA68 := by decide +kernel
  exact ⟨hcheck, verify_corrupt_of_odd hcheck rfl (by decide)⟩

end Trailer

end TaggedWire
