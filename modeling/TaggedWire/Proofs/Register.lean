import Mathlib.Data.List.GetD
import Mathlib.Logic.Function.Iterate
import TaggedWire.Checksum.BitSerial

/-!
The checksum register as a vector of bits. One shift is linear and loses nothing; a byte that goes
through the table does what eight shifts do, so feeding bytes is absorbing their bits one by one.
-/
namespace TaggedWire.Checksum

/-- The bits of the register, counted from the end at which they leave it. -/
def bit (r : UInt16) (i : Nat) : Bool :=
  r.toBitVec.getMsbD i

theorem bit_of_ge (r : UInt16) {i : Nat} (h : 16 ≤ i) : bit r i = false :=
  BitVec.getMsbD_of_ge _ _ h

theorem ext_bit {a b : UInt16} (h : ∀ i < 16, bit a i = bit b i) : a = b :=
  UInt16.toBitVec_inj.mp (BitVec.eq_of_getMsbD_eq h)

@[simp] theorem bit_zero (i : Nat) : bit 0 i = false := BitVec.getMsbD_zero

@[simp] theorem bit_xor (a b : UInt16) (i : Nat) : bit (a ^^^ b) i = (bit a i ^^ bit b i) := by
  rw [bit, UInt16.toBitVec_xor, BitVec.getMsbD_xor]
  rfl

theorem bit_shiftLeft_one (r : UInt16) (i : Nat) : bit (r <<< 1) i = bit r (i + 1) := by
  simp [bit, UInt16.toBitVec_shiftLeft, BitVec.getMsbD_shiftLeft]

theorem bit_shiftLeft_eight (r : UInt16) (i : Nat) : bit (r <<< 8) i = bit r (i + 8) := by
  simp [bit, UInt16.toBitVec_shiftLeft, BitVec.getMsbD_shiftLeft]

theorem bit_shiftRight_one (r : UInt16) {i : Nat} (hi : i < 16) :
    bit (r >>> 1) i = (decide (0 < i) && bit r (i - 1)) := by
  simp [bit, UInt16.toBitVec_shiftRight, BitVec.getMsbD_ushiftRight, hi, Nat.pos_iff_ne_zero]

/-- The register that holds a bit in its first place and nothing else. -/
def incoming (b : Bool) : UInt16 :=
  if b then 0x8000 else 0

@[simp] theorem incoming_false : incoming false = 0 := rfl

theorem bit_incoming (b : Bool) {i : Nat} (hi : i < 16) :
    bit (incoming b) i = (decide (i = 0) && b) := by
  have hall : ∀ (b : Bool) (j : Fin 16), bit (incoming b) j.val = (decide (j.val = 0) && b) := by
    decide
  exact hall b ⟨i, hi⟩

theorem and_high_eq_zero_iff (r : UInt16) : r &&& 0x8000 = 0 ↔ bit r 0 = false := by
  have hmask : ∀ i < 16, bit (r &&& 0x8000) i = (bit r i && decide (i = 0)) := by
    intro i hi
    have h := bit_incoming true hi
    rw [Bool.and_true] at h
    rw [← h, bit, UInt16.toBitVec_and, BitVec.getMsbD_and]
    rfl
  constructor
  · intro h
    have h0 := hmask 0 (by decide)
    rw [h, bit_zero] at h0
    simpa using h0.symm
  · intro h
    apply ext_bit
    intro i hi
    rw [hmask i hi, bit_zero]
    by_cases hi0 : i = 0
    · subst hi0
      rw [h, Bool.false_and]
    · rw [decide_eq_false hi0, Bool.and_false]

/-- One shift, bit by bit: every bit moves up, and a leaving one adds the polynomial. -/
theorem bit_shift (r : UInt16) (i : Nat) :
    bit (shift r) i = (bit r (i + 1) ^^ (bit r 0 && bit polynomial i)) := by
  unfold shift
  cases h : bit r 0 with
  | false => rw [if_pos ((and_high_eq_zero_iff r).mpr h), bit_shiftLeft_one, Bool.false_and,
      Bool.xor_false]
  | true =>
    have hne : ¬ (r &&& 0x8000 = 0) := by
      rw [and_high_eq_zero_iff, h]
      exact nofun
    rw [if_neg hne, bit_xor, bit_shiftLeft_one, Bool.true_and]

theorem shift_xor (a b : UInt16) : shift (a ^^^ b) = shift a ^^^ shift b := by
  apply ext_bit
  intro i _
  simp only [bit_shift, bit_xor]
  cases bit a 0 <;> cases bit b 0 <;> cases bit polynomial i <;> simp

@[simp] theorem shift_zero : shift 0 = 0 := rfl

/-- The last bit after a shift tells which bit has left, so nothing is lost. -/
theorem shift_injective : Function.Injective shift := by
  intro a b h
  have hlast : bit polynomial 15 = true := by decide
  have hbits : ∀ i, bit (shift a) i = bit (shift b) i := fun i => by rw [h]
  have hleft : bit a 0 = bit b 0 := by
    have h15 := hbits 15
    rwa [bit_shift, bit_shift, hlast, bit_of_ge a (by decide), bit_of_ge b (by decide),
      Bool.false_xor, Bool.false_xor, Bool.and_true, Bool.and_true] at h15
  apply ext_bit
  intro i _
  cases i with
  | zero => exact hleft
  | succ i =>
    have hi := hbits i
    rwa [bit_shift, bit_shift, hleft, Bool.xor_left_inj] at hi

theorem iterate_shift_xor (n : Nat) (a b : UInt16) :
    shift^[n] (a ^^^ b) = shift^[n] a ^^^ shift^[n] b := by
  induction n generalizing a b with
  | zero => rfl
  | succ n ih => simp only [Function.iterate_succ_apply, shift_xor, ih]

theorem iterate_shift_zero (n : Nat) : shift^[n] 0 = 0 :=
  Function.iterate_fixed shift_zero n

theorem iterate_shift_eq_zero_iff {n : Nat} {r : UInt16} : shift^[n] r = 0 ↔ r = 0 := by
  constructor
  · intro h
    exact shift_injective.iterate n (h.trans (iterate_shift_zero n).symm)
  · rintro rfl
    exact iterate_shift_zero n

/-- As long as only zeros leave, shifting just moves the bits. -/
theorem bit_iterate_shift {r : UInt16} {n : Nat} (h : ∀ i < n, bit r i = false) (i : Nat) :
    bit (shift^[n] r) i = bit r (i + n) := by
  induction n generalizing i with
  | zero => rfl
  | succ n ih =>
    have hbefore := ih (fun j hj => h j (Nat.lt_succ_of_lt hj))
    have hleft : bit (shift^[n] r) 0 = false := by
      rw [hbefore, Nat.zero_add]
      exact h n (Nat.lt_succ_self n)
    rw [Function.iterate_succ_apply', bit_shift, hleft, Bool.false_and, Bool.xor_false, hbefore,
      Nat.add_assoc, Nat.add_comm 1 n]

/-- Takes one bit in at the end at which bits leave. -/
def absorbBit (r : UInt16) (b : Bool) : UInt16 :=
  shift (r ^^^ incoming b)

/-- Takes bits in, one after the other. -/
def absorb (r : UInt16) (bs : List Bool) : UInt16 :=
  bs.foldl absorbBit r

@[simp] theorem absorb_nil (r : UInt16) : absorb r [] = r := rfl

@[simp] theorem absorb_cons (r : UInt16) (b : Bool) (bs : List Bool) :
    absorb r (b :: bs) = absorb (shift (r ^^^ incoming b)) bs := rfl

theorem absorb_append (r : UInt16) (bs cs : List Bool) :
    absorb r (bs ++ cs) = absorb (absorb r bs) cs := List.foldl_append

/-- Zeros only shift the register. -/
theorem absorb_of_clear {r : UInt16} {bs : List Bool} (h : ∀ b ∈ bs, b = false) :
    absorb r bs = shift^[bs.length] r := by
  induction bs generalizing r with
  | nil => rfl
  | cons b bs ih =>
    have hb : b = false := h b List.mem_cons_self
    rw [absorb_cons, hb, incoming_false, UInt16.xor_zero,
      ih (fun c hc => h c (List.mem_cons_of_mem b hc)), List.length_cons,
      Function.iterate_succ_apply]

/-- Bits side by side in the register, the first one in front. -/
def place : List Bool → UInt16
  | [] => 0
  | b :: bs => incoming b ^^^ (place bs >>> 1)

theorem bit_place (bs : List Bool) {i : Nat} (hi : i < 16) :
    bit (place bs) i = bs.getD i false := by
  induction bs generalizing i with
  | nil => exact bit_zero i
  | cons b bs ih =>
    rw [place, bit_xor, bit_incoming b hi, bit_shiftRight_one _ hi]
    cases i with
    | zero => simp
    | succ i => simp [ih (Nat.lt_of_succ_lt hi)]

/-- The bits of a register in the order in which they leave it. -/
def row (r : UInt16) : List Bool :=
  (List.range 16).map (bit r)

theorem place_row (r : UInt16) : place (row r) = r := by
  apply ext_bit
  intro i hi
  rw [bit_place _ hi, row, List.getD_eq_getElem?_getD, List.getElem?_map, List.getElem?_range hi]
  rfl

/-- Absorbing bits one by one is adding them side by side and then shifting. -/
theorem absorb_eq_iterate_shift {r : UInt16} {bs : List Bool} (h : bs.length ≤ 16) :
    absorb r bs = shift^[bs.length] (r ^^^ place bs) := by
  induction bs generalizing r with
  | nil => simp [place]
  | cons b bs ih =>
    have hshort : bs.length ≤ 15 := Nat.le_of_succ_le_succ h
    -- the last place is free, so the bits behind the first one come back from where they were moved
    have hback : shift (place bs >>> 1) = place bs := by
      apply ext_bit
      intro i hi
      have hfirst : bit (place bs >>> 1) 0 = false := bit_shiftRight_one _ (Nat.succ_pos 15)
      rw [bit_shift, hfirst, Bool.false_and, Bool.xor_false]
      by_cases hlast : i + 1 < 16
      · rw [bit_shiftRight_one _ hlast, decide_eq_true (Nat.succ_pos i), Bool.true_and]
        rfl
      · rw [bit_of_ge _ (by omega), bit_place bs hi, List.getD_eq_default _ _ (by omega)]
    rw [absorb_cons, ih (by omega), List.length_cons, Function.iterate_succ_apply, place,
      ← UInt16.xor_assoc, shift_xor _ (place bs >>> 1), hback]

/-- Shifts of bits that fill the register or less are zero only if all of these bits are. -/
theorem clear_of_absorb_eq_zero {bs : List Bool} (hlen : bs.length ≤ 16) (h : absorb 0 bs = 0) :
    ∀ b ∈ bs, b = false := by
  rw [absorb_eq_iterate_shift hlen, UInt16.zero_xor, iterate_shift_eq_zero_iff] at h
  intro b hb
  obtain ⟨i, hi⟩ := List.mem_iff_getElem?.mp hb
  have hlt : i < 16 := Nat.lt_of_lt_of_le (List.getElem?_eq_some_iff.mp hi).1 hlen
  have hbit := bit_place bs hlt
  rw [h, bit_zero, List.getD_eq_getElem?_getD, hi] at hbit
  exact hbit.symm

theorem bit_byte (b : UInt8) (i : Nat) : bit (b.toUInt16 <<< 8) i = b.toBitVec.getMsbD i := by
  rw [bit_shiftLeft_eight, bit, UInt8.toBitVec_toUInt16]
  simp

theorem bit_high (r : UInt16) (i : Nat) :
    (r >>> 8).toUInt8.toBitVec.getMsbD i = (decide (i < 8) && bit r i) := by
  have hshift : (r >>> 8).toBitVec = r.toBitVec >>> 8 := rfl
  by_cases hi : i < 8
  · rw [UInt16.toBitVec_toUInt8, hshift, BitVec.getMsbD_setWidth, BitVec.getMsbD_ushiftRight, bit]
    simp [hi, show i + 8 < 16 by omega]
  · rw [BitVec.getMsbD_of_ge _ _ (by omega), decide_eq_false hi, Bool.false_and]

theorem getD_byteBits (b : UInt8) (i : Nat) : (byteBits b).getD i false = b.toBitVec.getMsbD i := by
  by_cases hi : i < 8
  · rw [byteBits, List.getD_eq_getElem?_getD, List.getElem?_map, List.getElem?_range hi,
      BitVec.getMsbD_eq_getLsbD, decide_eq_true hi, Bool.true_and]
    rfl
  · rw [BitVec.getMsbD_of_ge _ _ (by omega), List.getD_eq_default]
    simpa [byteBits] using hi

theorem place_byteBits (b : UInt8) : place (byteBits b) = b.toUInt16 <<< 8 := by
  apply ext_bit
  intro i hi
  rw [bit_place _ hi, bit_byte, getD_byteBits]

theorem tableEntry_eq (i : Nat) : tableEntry i = shift^[8] (UInt16.ofNat i <<< 8) := rfl

theorem table_get (i : Fin 256) : table.get i = tableEntry i.val :=
  Vector.getElem_ofFn i.isLt

/-- One byte through the table is eight shifts of the register with the byte added in front. -/
theorem feed_eq (r : UInt16) (b : UInt8) : feed r b = shift^[8] (r ^^^ (b.toUInt16 <<< 8)) := by
  have hlow : ∀ i < 16, bit (r ^^^ ((r >>> 8).toUInt8.toUInt16 <<< 8)) i =
      (decide (8 ≤ i) && bit r i) := by
    intro i _
    rw [bit_xor, bit_byte, bit_high]
    by_cases hi : i < 8
    · simp [hi, Nat.not_le.mpr hi]
    · simp [hi, Nat.le_of_not_lt hi]
  -- what is not in the high half only moves there
  have hmove : shift^[8] (r ^^^ ((r >>> 8).toUInt8.toUInt16 <<< 8)) = r <<< 8 := by
    apply ext_bit
    intro i _
    rw [bit_iterate_shift, bit_shiftLeft_eight]
    · by_cases hi : i + 8 < 16
      · rw [hlow _ hi, decide_eq_true (Nat.le_add_left 8 i), Bool.true_and]
      · rw [bit_of_ge _ (by omega), bit_of_ge _ (by omega)]
    · intro j hj
      rw [hlow j (by omega), decide_eq_false (Nat.not_le.mpr hj), Bool.false_and]
  unfold feed
  dsimp only
  rw [table_get, tableEntry_eq, ← hmove, ← iterate_shift_xor, UInt16.ofNat_uInt8ToNat,
    UInt8.toUInt16_xor, UInt16.shiftLeft_xor, UInt16.xor_assoc,
    ← UInt16.xor_assoc _ _ (b.toUInt16 <<< 8), UInt16.xor_self, UInt16.zero_xor]

theorem bits_append (a b : Bytes) : bits (a ++ b) = bits a ++ bits b := List.flatMap_append

theorem length_byteBits (b : UInt8) : (byteBits b).length = 8 := by
  rw [byteBits, List.length_map, List.length_range]

theorem feed_eq_absorb (r : UInt16) (b : UInt8) : feed r b = absorb r (byteBits b) := by
  rw [feed_eq, absorb_eq_iterate_shift (by rw [length_byteBits]; decide), length_byteBits,
    place_byteBits]

@[simp] theorem update_cons (r : UInt16) (b : UInt8) (bytes : Bytes) :
    update r (b :: bytes) = update (feed r b) bytes := rfl

/-- Feeding bytes is absorbing their bits. -/
theorem update_eq_absorb (r : UInt16) (bytes : Bytes) : update r bytes = absorb r (bits bytes) := by
  induction bytes generalizing r with
  | nil => rfl
  | cons b bytes ih =>
    rw [update_cons, ih, feed_eq_absorb, ← absorb_append]
    rfl

theorem feed_xor (r q : UInt16) (a b : UInt8) :
    feed (r ^^^ q) (a ^^^ b) = feed r a ^^^ feed q b := by
  rw [feed_eq, feed_eq, feed_eq, ← iterate_shift_xor, UInt8.toUInt16_xor, UInt16.shiftLeft_xor]
  congr 1
  ac_rfl

/-- Feeding is linear: the difference of two registers is fed the difference of two inputs. -/
theorem update_xor (r q : UInt16) {a b : Bytes} (h : a.length = b.length) :
    update (r ^^^ q) (List.zipWith (· ^^^ ·) a b) = update r a ^^^ update q b := by
  induction a generalizing b r q with
  | nil =>
    obtain rfl := List.length_eq_zero_iff.mp h.symm
    rfl
  | cons x a ih =>
    cases b with
    | nil => cases h
    | cons y b => rw [List.zipWith_cons_cons, update_cons, feed_xor, ih _ _ (Nat.succ.inj h)]; rfl

end TaggedWire.Checksum
