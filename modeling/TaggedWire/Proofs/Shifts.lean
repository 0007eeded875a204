import Mathlib.Algebra.BigOperators.Intervals
import TaggedWire.Bytes.Slot
import TaggedWire.Bytes.Word

/-!
Words by shifts. A word is written byte by byte from a 64-bit register that is shifted to the right,
and read by shifting the register to the left under each new byte. Main statement: for every width
both directions are those of the base-256 expansion and undo each other, no shift goes as far as the
register is wide, and nothing is lost when the register is narrowed at the end.
-/
namespace TaggedWire

namespace BigEndian

theorem getElem?_encode {width i : Nat} (n : Nat) (h : i < width) :
    (encode width n)[i]? = some (UInt8.ofNat (n / 256 ^ (width - 1 - i))) := by
  induction width generalizing i with
  | zero => cases h
  | succ width ih =>
    cases i with
    | zero => rfl
    | succ i =>
      rw [encode_succ, List.getElem?_cons_succ, ih (Nat.lt_of_succ_lt_succ h)]
      simp [Nat.sub_sub, Nat.add_comm]

theorem decode_eq_sum (bytes : List UInt8) :
    decode bytes =
      ∑ i ∈ Finset.range bytes.length, (bytes.getD i 0).toNat * 256 ^ (bytes.length - 1 - i) := by
  induction bytes with
  | nil => rfl
  | cons b bs ih =>
    rw [decode_cons, List.length_cons, Finset.sum_range_succ', ih, Nat.add_comm]
    simp [Nat.sub_sub, Nat.add_comm]

end BigEndian

namespace Word

theorem toNat_ofNat_mod {places : Nat} (h : places < 64) :
    (UInt64.ofNat places).toNat % 64 = places := by
  have hlt : places < UInt64.size := Nat.lt_trans h (by decide)
  rw [UInt64.toNat_ofNat_of_lt' hlt, Nat.mod_eq_of_lt h]

theorem storeByte?_eq {width : Nat} (w : UInt64) (out : Bytes) (i : Nat) (hwidth : width ≤ 8) :
    storeByte? width w out i =
      some (out.set i (UInt8.ofNat (w.toNat / 256 ^ (width - 1 - i)))) := by
  have hplaces : 8 * (width - 1 - i) < 64 := by omega
  have hbyte : ((w >>> UInt64.ofNat (8 * (width - 1 - i))) &&& 0xFF).toUInt8 =
      UInt8.ofNat (w.toNat / 256 ^ (width - 1 - i)) := by
    apply UInt8.toNat_inj.mp
    have hmask : (0xFF : UInt64).toNat = 2 ^ 8 - 1 := rfl
    rw [UInt64.toNat_toUInt8, UInt64.toNat_and, hmask, Nat.and_two_pow_sub_one_eq_mod, Nat.mod_mod,
      UInt64.toNat_shiftRight, toNat_ofNat_mod hplaces, Nat.shiftRight_eq_div_pow, Nat.pow_mul,
      UInt8.toNat_ofNat']
  simp only [storeByte?, shiftRight?, if_pos hplaces]
  exact congrArg (fun b => some (out.set i b)) hbyte

/-- After `m` bytes, the front is done and the rest of `out` is still as it was. -/
theorem foldlM_storeByte? {width m : Nat} (w : UInt64) {out : Bytes} (hwidth : width ≤ 8)
    (hout : width ≤ out.length) (hm : m ≤ width) :
    (List.range m).foldlM (storeByte? width w) out =
      some ((BigEndian.encode width w.toNat).take m ++ out.drop m) := by
  induction m with
  | zero => rfl
  | succ m ih =>
    have hlen : ((BigEndian.encode width w.toNat).take m).length = m := by
      rw [List.length_take, BigEndian.length_encode]
      omega
    have hdrop : out.drop m = out[m] :: out.drop (m + 1) := List.drop_eq_getElem_cons (by omega)
    rw [List.range_succ, List.foldlM_append, ih (Nat.le_of_succ_le hm), Option.bind_eq_bind,
      Option.bind_some, List.foldlM_cons, storeByte?_eq w _ m hwidth, List.take_add_one,
      BigEndian.getElem?_encode _ hm, List.set_append_right _ _ (Nat.le_of_eq hlen), hlen,
      Nat.sub_self, hdrop, List.set_cons_zero, List.append_assoc]
    rfl

/-- A register with eight free bits takes a byte without losing any. -/
theorem joinByte?_eq {w : UInt64} (b : UInt8) (hw : w.toNat < 256 ^ 7) :
    ∃ w', joinByte? w b = some w' ∧ w'.toNat = w.toNat * 256 + b.toNat := by
  have hb : b.toNat < 2 ^ 8 := b.toNat_lt
  have hfree : w.toNat <<< 8 < 2 ^ 64 := by
    rw [Nat.shiftLeft_eq]
    omega
  refine ⟨(w <<< 8) ||| b.toUInt64, rfl, ?_⟩
  rw [UInt64.toNat_or, UInt8.toNat_toUInt64, UInt64.toNat_shiftLeft]
  change (w.toNat <<< 8 % 2 ^ 64) ||| b.toNat = _
  rw [Nat.mod_eq_of_lt hfree, ← Nat.shiftLeft_add_eq_or_of_lt hb, Nat.shiftLeft_eq]

theorem foldlM_joinByte? {w : UInt64} {bs : Bytes} {m : Nat} (hw : w.toNat < 256 ^ m)
    (hm : m + bs.length ≤ 8) :
    ∃ w', bs.foldlM joinByte? w = some w' ∧
      w'.toNat = bs.foldl (fun n b => n * 256 + b.toNat) w.toNat := by
  -- the register has room for as many bytes as are still to come
  induction bs generalizing w m with
  | nil => exact ⟨w, rfl, rfl⟩
  | cons b bs ih =>
    rw [List.length_cons] at hm
    have hroom : 256 ^ m ≤ 256 ^ 7 := Nat.pow_le_pow_right (by decide) (by omega)
    obtain ⟨joined, hjoined, hvalue⟩ := joinByte?_eq b (Nat.lt_of_lt_of_le hw hroom)
    have hnext : joined.toNat < 256 ^ (m + 1) := by
      have hb : b.toNat < 256 := b.toNat_lt
      rw [hvalue, Nat.pow_succ]
      omega
    obtain ⟨w', hfold, hresult⟩ := ih hnext (by omega)
    refine ⟨w', ?_, ?_⟩
    · rw [List.foldlM_cons, hjoined]
      exact hfold
    · rw [hresult, hvalue, List.foldl_cons]

variable {α : Type} [Word α]

theorem store?_eq (hwidth : width α ≤ 8) (v : α) (out : Bytes) : store? v out = write? v out := by
  unfold store? write?
  split
  · rfl
  · rename_i hout
    have hpow : 256 ^ width α ≤ UInt64.size := Nat.pow_le_pow_right (by decide) hwidth
    have hv : (UInt64.ofNat (toNat v)).toNat = toNat v :=
      UInt64.toNat_ofNat_of_lt' (Nat.lt_of_lt_of_le (toNat_lt v) hpow)
    have hlen : (bytes v).length ≤ width α := Nat.le_of_eq (length_bytes v)
    rw [foldlM_storeByte? _ hwidth (Nat.not_lt.mp hout) (Nat.le_refl _), hv, ← bytes,
      List.take_of_length_le hlen]

theorem load?_eq (hwidth : width α ≤ 8) (bs : Bytes) : load? bs = (read? bs : Option α) := by
  unfold load? read?
  split
  · rfl
  · rename_i hbs
    have hlen : (bs.take (width α)).length = width α := List.length_take_of_le (Nat.not_lt.mp hbs)
    obtain ⟨w, hw, hvalue⟩ : ∃ w, (bs.take (width α)).foldlM joinByte? 0 = some w ∧
        w.toNat = BigEndian.decode (bs.take (width α)) :=
      foldlM_joinByte? (m := 0) (by decide) (by rwa [hlen, Nat.zero_add])
    have hlt : w.toNat < 256 ^ width α := by
      have hdecode := BigEndian.decode_lt (bs.take (width α))
      rwa [hlen, ← hvalue] at hdecode
    rw [hw]
    change narrow? w = _
    rw [narrow?, if_pos hlt, hvalue, ofBytes]

variable (α) in
/-- The canonical form of a type of words has `n` bytes: they are the base-256 digits of a word, a
word is written over them and read from them exactly, and this is what shifts in a register do. -/
structure Canonical (n : Nat) : Prop where
  width_eq : width α = n
  write : ∀ (v : α) (out : Bytes), n ≤ out.length → ∃ new, write? v out = some new ∧
    new.length = out.length ∧ new.drop n = out.drop n ∧
    ∑ i ∈ Finset.range n, (new.getD i 0).toNat * 256 ^ (n - 1 - i) = toNat v ∧ read? new = some v
  read : ∀ bs : Bytes, n ≤ bs.length → ∃ v : α, read? bs = some v ∧
    ∀ out : Bytes, n ≤ out.length → write? v out = some (bs.take n ++ out.drop n)
  store : ∀ (v : α) (out : Bytes), store? v out = write? v out
  load : ∀ bs : Bytes, load? bs = (read? bs : Option α)

theorem canonical_of_width {n : Nat} (hwidth : width α = n) (hn : n ≤ 8) : Canonical α n := by
  subst hwidth
  refine ⟨rfl, ?_, ?_, store?_eq hn, load?_eq hn⟩
  · intro v out hout
    have hlen := length_bytes v
    refine ⟨bytes v ++ out.drop (width α), if_neg (Nat.not_lt.mpr hout), ?_, ?_, ?_, ?_⟩
    · rw [List.length_append, hlen, List.length_drop]
      omega
    · exact List.drop_left' hlen
    · have hdigits : ∀ i ∈ Finset.range (width α),
          ((bytes v ++ out.drop (width α)).getD i 0).toNat * 256 ^ (width α - 1 - i) =
            ((bytes v).getD i 0).toNat * 256 ^ ((bytes v).length - 1 - i) := by
        intro i hi
        have hfront : i < (bytes v).length := by
          rw [hlen]
          exact Finset.mem_range.mp hi
        rw [hlen, List.getD_eq_getElem?_getD, List.getElem?_append_left hfront,
          List.getD_eq_getElem?_getD]
      rw [Finset.sum_congr rfl hdigits, ← hlen, ← BigEndian.decode_eq_sum, bytes,
        BigEndian.decode_encode_of_lt (toNat_lt v)]
    · rw [read?, if_neg (by rw [List.length_append, hlen]; omega), List.take_left' hlen,
        ofBytes_bytes]
  · intro bs hbs
    refine ⟨ofBytes (bs.take (width α)), if_neg (Nat.not_lt.mpr hbs), ?_⟩
    intro out hout
    rw [write?, if_neg (Nat.not_lt.mpr hout), bytes_ofBytes (List.length_take_of_le hbs)]

/-- Types with the same numbers are read from the same bytes. -/
theorem read?_eq_map {β : Type} [Word β] (f : α → β) (hwidth : width β = width α)
    (hf : ∀ n, ofNat n = f (ofNat n)) (bs : Bytes) : read? bs = f <$> read? bs := by
  unfold read? ofBytes
  rw [hwidth, hf]
  split <;> rfl

/-- Unsigned integers of one, two, four and eight bytes are written and read exactly, and so are
binary numbers of four and eight bytes, as their bits. -/
theorem canonical_each_width :
    Canonical UInt8 1 ∧ Canonical UInt16 2 ∧ Canonical UInt32 4 ∧ Canonical UInt64 8 ∧
    Canonical Binary32 4 ∧ Canonical Binary64 8 ∧
    (∀ (v : Binary32) (bs : Bytes),
      write? v bs = write? v.bits bs ∧ read? bs = Binary32.mk <$> read? bs) ∧
    ∀ (v : Binary64) (bs : Bytes),
      write? v bs = write? v.bits bs ∧ read? bs = Binary64.mk <$> read? bs := by
  refine ⟨?_, ?_, ?_, ?_, ?_, ?_, ?_, ?_⟩
  iterate 6 exact canonical_of_width rfl (by decide)
  · intro v bs
    exact ⟨rfl, read?_eq_map Binary32.mk rfl (fun _ => rfl) bs⟩
  · intro v bs
    exact ⟨rfl, read?_eq_map Binary64.mk rfl (fun _ => rfl) bs⟩

end Word

end TaggedWire
