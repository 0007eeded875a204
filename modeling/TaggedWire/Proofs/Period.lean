import Mathlib.Data.Nat.Prime.Basic
import Mathlib.Dynamics.PeriodicPts.Defs
import Mathlib.Tactic.NormNum.Prime
import TaggedWire.Proofs.Streaming

/-!
The period of the register. A shift multiplies by `x` modulo `x^16 + x^12 + x^5 + 1`, so a number of
shifts is a power of `x`, found by repeated squaring. Main statement: a single bit comes back to its
place after 32767 shifts and not before.
-/
namespace TaggedWire.Checksum

/-- The product of two registers, read as polynomials, reduced by the checksum's polynomial. -/
def times (a r : UInt16) : UInt16 :=
  (row r).foldl (fun q b => shift q ^^^ (if b then a else 0)) 0

theorem length_row (r : UInt16) : (row r).length = 16 := by
  rw [row, List.length_map, List.length_range]

theorem times_one (r : UInt16) : times 1 r = r := by
  have hfold : times 1 r = (row r).foldl shiftIn 0 := by
    simp only [times, ← shiftIn_eq]
  rw [hfold]
  apply shift_injective.iterate 16
  have hshort : (row r).length ≤ 16 := Nat.le_of_eq (length_row r)
  rw [iterate_shift_foldl_shiftIn, iterate_shift_zero, absorb_eq_iterate_shift hshort,
    UInt16.zero_xor, place_row, length_row]

theorem iterate_shift_foldl (n : Nat) (a q : UInt16) (bs : List Bool) :
    shift^[n] (bs.foldl (fun q b => shift q ^^^ (if b then a else 0)) q) =
      bs.foldl (fun q b => shift q ^^^ (if b then shift^[n] a else 0)) (shift^[n] q) := by
  induction bs generalizing q with
  | nil => rfl
  | cons b bs ih =>
    have hbit : shift^[n] (if b then a else 0) = if b then shift^[n] a else 0 := by
      cases b with
      | false => exact iterate_shift_zero n
      | true => rfl
    rw [List.foldl_cons, ih, iterate_shift_xor, hbit, ← Function.iterate_succ_apply,
      Function.iterate_succ_apply', List.foldl_cons]

/-- Shifting is multiplication by what the shifts make of one. -/
theorem iterate_shift_eq_times (n : Nat) (r : UInt16) : shift^[n] r = times (shift^[n] 1) r := by
  have h := iterate_shift_foldl n 1 0 (row r)
  rw [iterate_shift_zero] at h
  exact (congrArg _ (times_one r).symm).trans h

/-- The number with the given binary digits, the most significant one in front. -/
def ofDigits (ds : List Bool) : Nat :=
  ds.foldl (fun n d => 2 * n + d.toNat) 0

/-- The power of `x` whose exponent has the given binary digits. -/
def power (ds : List Bool) : UInt16 :=
  ds.foldl (fun a d => if d then shift (times a a) else times a a) 1

theorem iterate_shift_ofDigits (ds : List Bool) : shift^[ofDigits ds] 1 = power ds := by
  have hfold : ∀ n, shift^[ds.foldl (fun n d => 2 * n + d.toNat) n] 1 =
      ds.foldl (fun a d => if d then shift (times a a) else times a a) (shift^[n] 1) := by
    induction ds with
    | nil => exact fun _ => rfl
    | cons d ds ih =>
      intro n
      have hsquare : shift^[2 * n] 1 = times (shift^[n] 1) (shift^[n] 1) := by
        rw [Nat.two_mul, Function.iterate_add_apply, ← iterate_shift_eq_times]
      rw [List.foldl_cons, ih, List.foldl_cons]
      congr 1
      cases d with
      | false => exact hsquare
      | true => exact (Function.iterate_succ_apply' shift (2 * n) 1).trans (congrArg shift hsquare)
  exact hfold 0

theorem isPeriodicPt_shift : Function.IsPeriodicPt shift 32767 1 := by
  have hpower : power (List.replicate 15 true) = 1 := by decide +kernel
  exact (iterate_shift_ofDigits (List.replicate 15 true)).trans hpower

theorem not_isPeriodicPt_ofDigits (ds : List Bool) (h : power ds ≠ 1) :
    ¬ Function.IsPeriodicPt shift (ofDigits ds) 1 := by
  intro hperiod
  exact h ((iterate_shift_ofDigits ds).symm.trans hperiod)

/-- None of the greatest proper divisors of 32767 is a period. -/
theorem not_isPeriodicPt_shift {q : Nat} (hq : q.Prime) (hdvd : q ∣ 32767) :
    ¬ Function.IsPeriodicPt shift (32767 / q) 1 := by
  have hfactors : q ∣ 7 * 31 * 151 := hdvd
  rw [hq.dvd_mul, hq.dvd_mul, Nat.prime_dvd_prime_iff_eq hq (by norm_num),
    Nat.prime_dvd_prime_iff_eq hq (by norm_num), Nat.prime_dvd_prime_iff_eq hq (by norm_num)]
    at hfactors
  -- the quotients are 4681, 1057 and 217
  rcases hfactors with (rfl | rfl) | rfl
  · exact not_isPeriodicPt_ofDigits [true, false, false, true, false, false, true, false, false,
      true, false, false, true] (by decide +kernel)
  · exact not_isPeriodicPt_ofDigits [true, false, false, false, false, true, false, false, false,
      false, true] (by decide +kernel)
  · exact not_isPeriodicPt_ofDigits [true, true, false, true, true, false, false, true]
      (by decide +kernel)

theorem minimalPeriod_shift : Function.minimalPeriod shift 1 = 32767 := by
  obtain ⟨k, hk⟩ := isPeriodicPt_shift.minimalPeriod_dvd
  by_cases hone : k = 1
  · rw [hk, hone, Nat.mul_one]
  · -- a smaller period divides one of the greatest proper divisors
    obtain ⟨q, hq, j, hj⟩ := Nat.exists_prime_and_dvd hone
    have hdvd : q ∣ 32767 := ⟨Function.minimalPeriod shift 1 * j, by rw [hk, hj]; ac_rfl⟩
    have hquotient : 32767 / q = Function.minimalPeriod shift 1 * j := by
      rw [hk, hj, Nat.mul_left_comm, Nat.mul_div_cancel_left _ hq.pos]
    refine absurd ?_ (not_isPeriodicPt_shift hq hdvd)
    rw [hquotient]
    exact (Function.isPeriodicPt_minimalPeriod shift 1).mul_const j

/-- Fewer shifts do not bring a bit back to where it was. -/
theorem iterate_shift_incoming_ne {n : Nat} (hpos : 0 < n) (hlt : n < 32767) :
    shift^[n] (incoming true) ≠ incoming true := by
  have hfirst : shift^[15] 1 = incoming true := by decide +kernel
  intro hback
  rw [← hfirst] at hback
  have hone : Function.IsPeriodicPt shift n 1 := by
    apply shift_injective.iterate 15
    rw [← Function.iterate_add_apply, Nat.add_comm, Function.iterate_add_apply]
    exact hback
  rw [← minimalPeriod_shift] at hlt
  exact Function.not_isPeriodicPt_of_pos_of_lt_minimalPeriod (Nat.ne_of_gt hpos) hlt hone

end TaggedWire.Checksum
