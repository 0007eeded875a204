import TaggedWire.Proofs.Register
import TaggedWire.Proofs.Trailer

/-!
Corrupted messages. A sealed message leaves nothing in the register once its stored checksum is fed
behind what it covers. Feeding is linear, so whether a corrupted message still passes depends on the
error alone. Main statement: no error within sixteen consecutive bits passes.
-/
namespace TaggedWire

/-- The message with the bits of the error pattern flipped. -/
def corrupt (message error : Bytes) : Bytes :=
  List.zipWith (· ^^^ ·) message error

namespace Checksum

/-- Two bytes side by side in a word. -/
theorem spelled_eq (hi lo : UInt8) :
    UInt16.ofNat (hi.toNat * 256 + lo.toNat) = (hi.toUInt16 <<< 8) ^^^ lo.toUInt16 := by
  apply UInt16.toNat_inj.mp
  have hhi := hi.toNat_lt
  have hlo := lo.toNat_lt
  have hbits : 2 ^ 8 * hi.toNat + lo.toNat = (2 ^ 8 * hi.toNat) ^^^ lo.toNat := by
    apply Nat.eq_of_testBit_eq
    intro j
    rw [Nat.testBit_xor, Nat.testBit_two_pow_mul_add _ hlo, Nat.testBit_two_pow_mul]
    by_cases hj : j < 8
    · simp [hj, Nat.not_le.mpr hj]
    · have hle : 2 ^ 8 ≤ 2 ^ j := Nat.pow_le_pow_right (by decide) (Nat.le_of_not_lt hj)
      have hclear : lo.toNat.testBit j = false :=
        Nat.testBit_lt_two_pow (Nat.lt_of_lt_of_le hlo hle)
      simp [hj, Nat.le_of_not_lt hj, hclear]
  have hhigh : hi.toNat <<< 8 % 2 ^ 16 = 2 ^ 8 * hi.toNat := by
    rw [Nat.shiftLeft_eq, Nat.mul_comm, Nat.mod_eq_of_lt (by omega)]
  rw [UInt16.toNat_ofNat', UInt16.toNat_xor, UInt16.toNat_shiftLeft, UInt8.toNat_toUInt16,
    UInt8.toNat_toUInt16, Nat.mul_comm hi.toNat 256, Nat.mod_eq_of_lt (by omega)]
  exact hbits.trans (congrArg (· ^^^ lo.toNat) hhigh.symm)

/-- A register is emptied by the two bytes that spell it and by no others. -/
theorem update_pair_eq_zero_iff (r : UInt16) (hi lo : UInt8) :
    update r [hi, lo] = 0 ↔ r = UInt16.ofNat (hi.toNat * 256 + lo.toNat) := by
  -- the low byte has eight zeros in front of it, so eight shifts only move it
  have hlow : lo.toUInt16 <<< 8 = shift^[8] lo.toUInt16 := by
    apply ext_bit
    intro i _
    rw [bit_iterate_shift, bit_shiftLeft_eight]
    intro j hj
    rw [bit, UInt8.toBitVec_toUInt16, BitVec.getMsbD_setWidth]
    simp [Nat.not_le.mpr hj]
  have hfeed : update r [hi, lo] =
      shift^[16] (r ^^^ UInt16.ofNat (hi.toNat * 256 + lo.toNat)) := by
    rw [update_cons, update_cons, update_nil, feed_eq, feed_eq, hlow, ← iterate_shift_xor,
      ← Function.iterate_add_apply, spelled_eq, UInt16.xor_assoc]
  rw [hfeed, iterate_shift_eq_zero_iff, UInt16.xor_eq_zero_iff]

/-- The set bits lie in some `width` consecutive places. -/
def Within (width : Nat) (bs : List Bool) : Prop :=
  ∃ first, ∀ i, bs[i]? = some true → first ≤ i ∧ i < first + width

/-- Bits taken out of the middle bring the others closer together. -/
theorem Within.remove {width : Nat} {front middle back : List Bool}
    (h : Within width (front ++ middle ++ back)) : Within width (front ++ back) := by
  obtain ⟨first, hfirst⟩ := h
  refine ⟨if first ≤ front.length then first else first - middle.length, ?_⟩
  intro i hi
  by_cases hfront : i < front.length
  · have hwindow := hfirst i (by
      rw [List.append_assoc, List.getElem?_append_left hfront, ← hi,
        List.getElem?_append_left hfront])
    rw [if_pos (by omega)]
    exact hwindow
  · have hwindow := hfirst (i + middle.length) (by
      rw [List.getElem?_append_right (by rw [List.length_append]; omega), ← hi,
        List.getElem?_append_right (by omega), List.length_append]
      congr 1
      omega)
    split <;> omega

/-- Set bits within sixteen places never leave the register empty. -/
theorem clear_of_within {bs : List Bool} (hwithin : Within 16 bs) (hzero : absorb 0 bs = 0) :
    ∀ b ∈ bs, b = false := by
  obtain ⟨first, hfirst⟩ := hwithin
  have hoff : ∀ {i : Nat} {b : Bool}, bs[i]? = some b → (i < first ∨ first + 16 ≤ i) →
      b = false := by
    intro i b hi hout
    cases b with
    | false => rfl
    | true =>
      have hin := hfirst i hi
      omega
  have hbefore : ∀ b ∈ bs.take first, b = false := by
    intro b hb
    obtain ⟨i, hi⟩ := List.mem_iff_getElem?.mp hb
    rw [List.getElem?_take, Option.ite_none_right_eq_some] at hi
    obtain ⟨hlt, hi⟩ := hi
    exact hoff hi (Or.inl hlt)
  have hafter : ∀ b ∈ (bs.drop first).drop 16, b = false := by
    intro b hb
    obtain ⟨i, hi⟩ := List.mem_iff_getElem?.mp hb
    rw [List.drop_drop, List.getElem?_drop] at hi
    exact hoff hi (Or.inr (by omega))
  have hsplit : bs = bs.take first ++ ((bs.drop first).take 16 ++ (bs.drop first).drop 16) := by
    rw [List.take_append_drop, List.take_append_drop]
  -- zeros in front leave the register empty, and zeros behind empty no register
  rw [hsplit, absorb_append, absorb_of_clear hbefore, iterate_shift_zero, absorb_append,
    absorb_of_clear hafter, iterate_shift_eq_zero_iff] at hzero
  have hwindow := clear_of_absorb_eq_zero (List.length_take_le 16 _) hzero
  intro b hb
  rw [hsplit, List.mem_append, List.mem_append] at hb
  rcases hb with hb | hb | hb
  · exact hbefore b hb
  · exact hwindow b hb
  · exact hafter b hb

/-- An error that spares the tag and has no effect on an empty register is no error, if its set bits
lie within sixteen places. The tag is not fed, but the window closes over its eight places. -/
theorem clear_of_no_effect {front : Bytes} {hi lo : UInt8}
    (hwithin : Within 16 (bits (front ++ [0, hi, lo])))
    (hnone : update 0 (front ++ [hi, lo]) = 0) : ∀ b ∈ bits (front ++ [0, hi, lo]), b = false := by
  have hbits : bits (front ++ [0, hi, lo]) = bits front ++ bits [0] ++ bits [hi, lo] := by
    rw [← bits_append, ← bits_append, List.append_assoc]
    rfl
  have htag : ∀ b ∈ bits [0], b = false := by decide
  rw [hbits] at hwithin ⊢
  rw [update_eq_absorb, bits_append] at hnone
  have hclear := clear_of_within hwithin.remove hnone
  intro b hb
  rw [List.mem_append, List.mem_append] at hb
  rcases hb with (hb | hb) | hb
  · exact hclear b (List.mem_append_left _ hb)
  · exact htag b hb
  · exact hclear b (List.mem_append_right _ hb)

/-- A spared tag adds nothing to the weight of an error. -/
theorem count_bits_spared (front : Bytes) (hi lo : UInt8) :
    (bits (front ++ [0, hi, lo])).count true = (bits (front ++ [hi, lo])).count true := by
  have htag : (bits [0]).count true = 0 := by decide
  have hsplit : front ++ [0, hi, lo] = front ++ ([0] ++ [hi, lo]) := rfl
  rw [hsplit, bits_append, bits_append, bits_append, List.count_append, List.count_append,
    List.count_append, htag, Nat.zero_add]

end Checksum

namespace Trailer

theorem exists_last_three {bytes : Bytes} (h : len ≤ bytes.length) :
    ∃ covered tag hi lo, bytes = covered ++ [tag, hi, lo] := by
  have hlast : (bytes.drop (bytes.length - len)).length = 3 := by
    rw [List.length_drop]
    exact Nat.sub_sub_self h
  obtain ⟨tag, hi, lo, hthree⟩ := List.length_eq_three.mp hlast
  refine ⟨bytes.take (bytes.length - len), tag, hi, lo, ?_⟩
  rw [← hthree, List.take_append_drop]

/-- A message passes exactly if its tag is right and the checksum over the covered bytes and the
stored ones is zero. -/
theorem verify_append_iff (covered : Bytes) (tag hi lo : UInt8) :
    verify (covered ++ [tag, hi, lo]) = true ↔
      tag = 0xCD ∧ Checksum.ofBytes (covered ++ [hi, lo]) = 0 := by
  rw [Checksum.ofBytes, Checksum.update_append, Checksum.update_pair_eq_zero_iff,
    verify_eq_true_iff]
  constructor
  · rintro ⟨covered', h⟩
    obtain ⟨rfl, hlast⟩ := List.append_inj' h (length_encode _).symm
    obtain ⟨hi', lo', -, hspelled⟩ := exists_spelled (Checksum.ofBytes covered)
    rw [hspelled, encode_spelled] at hlast
    cases hlast
    exact ⟨rfl, hspelled⟩
  · rintro ⟨rfl, hspelled⟩
    refine ⟨covered, ?_⟩
    rw [Checksum.ofBytes, hspelled, encode_spelled]

/-- A corrupted message passes exactly if the error spares the tag and is itself without effect on
an empty register. -/
theorem verify_corrupt_iff {message error : Bytes} (hmessage : verify message = true)
    (hlen : error.length = message.length) :
    verify (corrupt message error) = true ↔
      ∃ front hi lo, error = front ++ [0, hi, lo] ∧
        Checksum.update 0 (front ++ [hi, lo]) = 0 := by
  have hroom : len ≤ message.length := by
    obtain ⟨covered, rfl⟩ := verify_eq_true_iff.mp hmessage
    rw [List.length_append, length_encode]
    exact Nat.le_add_left _ _
  obtain ⟨covered, tag, hi, lo, rfl⟩ := exists_last_three hroom
  obtain ⟨front, tag', hi', lo', rfl⟩ := exists_last_three (hlen.symm ▸ hroom)
  have hfront : covered.length = front.length := by simpa using hlen.symm
  obtain ⟨rfl, hzero⟩ := (verify_append_iff covered tag hi lo).mp hmessage
  have hcorrupt : corrupt (covered ++ [0xCD, hi, lo]) (front ++ [tag', hi', lo']) =
      corrupt covered front ++ [0xCD ^^^ tag', hi ^^^ hi', lo ^^^ lo'] :=
    List.zipWith_append hfront
  have hpairs : corrupt (covered ++ [hi, lo]) (front ++ [hi', lo']) =
      corrupt covered front ++ [hi ^^^ hi', lo ^^^ lo'] := List.zipWith_append hfront
  have heffect : Checksum.ofBytes (corrupt covered front ++ [hi ^^^ hi', lo ^^^ lo']) =
      Checksum.update 0 (front ++ [hi', lo']) := by
    have hlinear := Checksum.update_xor Checksum.start 0
      (show (covered ++ [hi, lo]).length = (front ++ [hi', lo']).length by simp [hfront])
    rw [UInt16.xor_zero] at hlinear
    rw [← hpairs, Checksum.ofBytes, corrupt, hlinear]
    rw [Checksum.ofBytes] at hzero
    rw [hzero, UInt16.zero_xor]
  rw [hcorrupt, verify_append_iff, heffect]
  constructor
  · rintro ⟨htag, hnone⟩
    obtain rfl : tag' = 0 := (UInt8.xor_right_inj 0xCD).mp (htag.trans UInt8.xor_zero.symm)
    exact ⟨front, hi', lo', rfl, hnone⟩
  · rintro ⟨front', hi'', lo'', herror, hnone⟩
    obtain ⟨rfl, hlast⟩ := List.append_inj' herror rfl
    cases hlast
    exact ⟨UInt8.xor_zero, hnone⟩

/-- An error whose set bits lie within sixteen consecutive places never passes, wherever in the
message it falls. -/
theorem verify_corrupt_of_burst {message error : Bytes} {c : UInt16}
    (hmessage : check message = .ok c) (hlen : error.length = message.length)
    (hset : true ∈ Checksum.bits error) (hburst : Checksum.Within 16 (Checksum.bits error)) :
    verify (corrupt message error) = false := by
  refine Bool.eq_false_iff.mpr fun hpass => ?_
  obtain ⟨front, hi, lo, rfl, hnone⟩ :=
    (verify_corrupt_iff (verify_of_check hmessage) hlen).mp hpass
  exact Bool.noConfusion (Checksum.clear_of_no_effect hburst hnone true hset)

/-- The flipped bits are the first and the last of sixteen places, one on each side of the tag. -/
theorem verify_corrupt_of_burst_across_tag :
    check [0x92, 0x01, 0xCD, 0xEA, 0x68] = .ok 0xEA68 ∧
      verify (corrupt [0x92, 0x01, 0xCD, 0xEA, 0x68] [0, 0x01, 0, 0x02, 0]) = false := by
  have hcheck : check [0x92, 0x01, 0xCD, 0xEA, 0x68] = .ok 0xEA68 := by decide +kernel
  refine ⟨hcheck, verify_corrupt_of_burst hcheck rfl (by decide) ⟨15, ?_⟩⟩
  intro i hi
  have hlt : i < 40 := (List.getElem?_eq_some_iff.mp hi).1
  have hall : ∀ j : Fin 40, (Checksum.bits [0, 0x01, 0, 0x02, 0])[j.val]? = some true →
      15 ≤ j.val ∧ j.val < 15 + 16 := by decide
  exact hall ⟨i, hlt⟩ hi

end Trailer

end TaggedWire
