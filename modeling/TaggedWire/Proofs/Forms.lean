import TaggedWire.Proofs.Header

/-!
The three forms of array headers. The first byte selects a form or none; a form is complete or cut
off, and a complete one carries a count, which may be zero. Main statement: the shortest header of a
count is read back wherever it stands, every other header that is read is longer than it, and a
byte string that starts with no header is refused for the first of these reasons that applies.
-/
namespace TaggedWire

/-- What a form is called where a header is found to be cut off. -/
def ArrayForm.label : ArrayForm → String
  | fixArray => "array header"
  | array16 => "array16 header"
  | array32 => "array32 header"

namespace ArrayHeader

/-- The form that a header has by its first byte. -/
inductive Selects : UInt8 → ArrayForm → Prop
  | fixArray {b : UInt8} : 0x90 ≤ b → b ≤ 0x9F → Selects b .fixArray
  | array16 : Selects 0xDC .array16
  | array32 : Selects 0xDD .array32

/-- Why no header is read at `offset`, where the bytes `rest` stand. -/
inductive Fault (offset : Nat) : Bytes → WireError → Prop
  | missing : Fault offset [] (.truncated offset 1 0 "array header")
  | cutOff {b : UInt8} {left : Bytes} {form : ArrayForm} : Selects b form →
      (b :: left).length < form.headerLen →
      Fault offset (b :: left) (.truncated offset form.headerLen (b :: left).length form.label)
  | unknown {b : UInt8} {left : Bytes} : (∀ form, ¬ Selects b form) →
      Fault offset (b :: left) (.invalidArrayHeader offset b)
  | zero {header tail : Bytes} : Announces 0 header →
      Fault offset (header ++ tail) (.zeroLength "decoded array header")

theorem isFixArray_iff {b : UInt8} : isFixArray b = true ↔ 0x90 ≤ b ∧ b ≤ 0x9F := by
  have hbase : ∀ n, n ≤ 15 → (0x90 ||| UInt8.ofNat n).toNat = 144 + n := by
    intro n hn
    interval_cases n <;> decide
  have hlow : (0x90 : UInt8).toNat = 144 := rfl
  have hhigh : (0x9F : UInt8).toNat = 159 := rfl
  rw [UInt8.le_iff_toNat_le, UInt8.le_iff_toNat_le, hlow, hhigh]
  constructor
  · intro h
    obtain ⟨hle, hb⟩ := eq_of_isFixArray h
    rw [hb, hbase _ hle]
    omega
  · rintro ⟨hge, hle⟩
    have hb : b = 0x90 ||| UInt8.ofNat (b.toNat - 144) := by
      apply UInt8.toNat_inj.mp
      rw [hbase _ (by omega)]
      omega
    rw [hb]
    exact (isFixArray_of_le (by omega)).1

theorem read_of_unknown {b : UInt8} (h : ∀ form, ¬ Selects b form) (offset : Nat) (left : Bytes) :
    read offset (b :: left) = .error (.invalidArrayHeader offset b) := by
  have hfix : ¬ isFixArray b = true := by
    intro hb
    obtain ⟨hge, hle⟩ := isFixArray_iff.mp hb
    exact h _ (.fixArray hge hle)
  have h16 : ¬ b = Tag.array16.byte := by
    rintro rfl
    exact h _ .array16
  have h32 : ¬ b = Tag.array32.byte := by
    rintro rfl
    exact h _ .array32
  rw [read, if_neg hfix, if_neg h16, if_neg h32]

theorem Selects.read_of_cutOff {b : UInt8} {form : ArrayForm} {left : Bytes} (h : Selects b form)
    (hshort : (b :: left).length < form.headerLen) (offset : Nat) :
    read offset (b :: left) =
      .error (.truncated offset form.headerLen (b :: left).length form.label) := by
  cases h with
  -- the first byte is all of a short header
  | fixArray => exact absurd (Nat.lt_of_succ_lt_succ hshort) (Nat.not_lt_zero _)
  | array16 => exact readCount_of_short (Nat.lt_of_succ_lt_succ hshort) offset 0xDC "array16 header"
  | array32 => exact readCount_of_short (Nat.lt_of_succ_lt_succ hshort) offset 0xDD "array32 header"

/-- The bytes after a marker spell a count. -/
theorem exists_spelled (width : Nat) {left : Bytes} (h : width ≤ left.length) :
    ∃ n tail, n < 256 ^ width ∧ left = BigEndian.encode width n ++ tail := by
  have hlen : (left.take width).length = width := List.length_take_of_le h
  have hlt := BigEndian.decode_lt (left.take width)
  have hback := BigEndian.encode_decode (left.take width)
  rw [hlen] at hlt hback
  exact ⟨_, left.drop width, hlt, by rw [hback, List.take_append_drop]⟩

theorem Selects.exists_announces {b : UInt8} {form : ArrayForm} {left : Bytes} (h : Selects b form)
    (hlong : form.headerLen ≤ (b :: left).length) :
    ∃ n header tail, Announces n header ∧ b :: left = header ++ tail := by
  cases h with
  | fixArray hge hle =>
    obtain ⟨hcount, hb⟩ := eq_of_isFixArray (isFixArray_iff.mpr ⟨hge, hle⟩)
    exact ⟨_, _, left, .fixArray hcount, congrArg (· :: left) hb⟩
  | array16 =>
    obtain ⟨n, tail, hlt, rfl⟩ := exists_spelled 2 (Nat.le_of_succ_le_succ hlong)
    exact ⟨n, _, tail, .array16 (by omega), rfl⟩
  | array32 =>
    obtain ⟨n, tail, hlt, rfl⟩ := exists_spelled 4 (Nat.le_of_succ_le_succ hlong)
    exact ⟨n, _, tail, .array32 (by unfold maxElements; omega), rfl⟩

theorem Announces.le_max {n : Nat} {header : Bytes} (h : Announces n header) :
    n ≤ maxElements := by
  cases h with
  | fixArray hle => exact Nat.le_trans hle (by decide)
  | array16 hle => exact Nat.le_trans hle (by decide)
  | array32 hle => exact hle

theorem Announces.ne_nil {n : Nat} {header : Bytes} (h : Announces n header) : header ≠ [] := by
  cases h <;> exact List.cons_ne_nil _ _

/-- A byte string starts with a header of a count that is not zero, or there is a fault. -/
theorem exists_fault_or_announces (offset : Nat) (rest : Bytes) :
    (∃ e, Fault offset rest e) ∨
      ∃ (n : ArrayLength) (header tail : Bytes),
        Announces n.val header ∧ rest = header ++ tail := by
  cases rest with
  | nil => exact .inl ⟨_, .missing⟩
  | cons b left =>
    by_cases hb : ∃ form, Selects b form
    · obtain ⟨form, hform⟩ := hb
      rcases Nat.lt_or_ge (b :: left).length form.headerLen with hshort | hlong
      · exact .inl ⟨_, .cutOff hform hshort⟩
      · obtain ⟨n, header, tail, hn, hrest⟩ := hform.exists_announces hlong
        rw [hrest]
        rcases Nat.eq_zero_or_pos n with rfl | hpos
        · exact .inl ⟨_, .zero hn⟩
        · exact .inr ⟨⟨n, hpos, hn.le_max⟩, header, tail, hn, rfl⟩
    · exact .inl ⟨_, .unknown fun form hform => hb ⟨form, hform⟩⟩

theorem Fault.read_eq {offset : Nat} {rest : Bytes} {e : WireError} (h : Fault offset rest e) :
    read offset rest = .error e := by
  cases h with
  | missing => rfl
  | cutOff hform hshort => exact hform.read_of_cutOff hshort offset
  | unknown hnone => exact read_of_unknown hnone offset _
  | zero hzero => exact hzero.read_append offset _

theorem decodeAt_eq_error_iff {buf : Bytes} {offset : Nat} {e : WireError} :
    decodeAt buf offset = .error e ↔ Fault offset (buf.drop offset) e := by
  constructor
  · intro h
    obtain ⟨e', hfault⟩ | ⟨n, header, tail, hn, hrest⟩ :=
      exists_fault_or_announces offset (buf.drop offset)
    · rw [decodeAt, hfault.read_eq] at h
      cases h
      exact hfault
    · rw [decodeAt_eq_ok_iff.mpr ⟨header, tail, hn, hrest, rfl⟩] at h
      cases h
  · intro h
    rw [decodeAt, h.read_eq]
    rfl

/-- Only the shortest header of a count has its length. -/
theorem Announces.length_eq_iff {n : ArrayLength} {header : Bytes} (h : Announces n.val header) :
    header.length = n.encode.length ↔ header = n.encode := by
  refine ⟨?_, congrArg List.length⟩
  rw [← encodedLen_val, encodedLen, ArrayLength.encode, ArrayLength.form]
  cases h with
  | fixArray hle =>
    intro _
    rw [if_pos hle]
  | array16 hle =>
    intro hlen
    by_cases h15 : n.val ≤ 15
    · rw [if_pos h15] at hlen
      cases hlen
    · rw [if_neg h15, if_pos hle]
      rfl
  | array32 hle =>
    intro hlen
    by_cases h15 : n.val ≤ 15
    · rw [if_pos h15] at hlen
      cases hlen
    · by_cases h16 : n.val ≤ 65535
      · rw [if_neg h15, if_pos h16] at hlen
        cases hlen
      · rw [if_neg h15, if_neg h16]
        rfl

/-- The shortest header of every count is read back between any bytes, and the two ways to know its
length agree with it. What is read anywhere lies within the buffer, carries a count that is not
zero and is no shorter than the shortest header, which is the only one of its length. Where nothing
is read, the byte string has the one fault that is reported. -/
theorem decodeAt_round_trip_minimal :
    (∀ (n : ArrayLength) (front tail : Bytes),
      decodeAt (front ++ n.encode ++ tail) front.length =
        .ok (n, front.length + n.encode.length) ∧
      n.encode.length = n.encodedLen ∧ n.encodedLen = encodedLen n.val) ∧
    (∀ (buf : Bytes) (offset : Nat) (n : ArrayLength) (next : Nat),
      decodeAt buf offset = .ok (n, next) →
        1 ≤ n.val ∧ next ≤ buf.length ∧ offset + encodedLen n.val ≤ next ∧
        (next = offset + encodedLen n.val ↔
          (buf.drop offset).take (next - offset) = n.encode)) ∧
    ∀ (buf : Bytes) (offset : Nat) (e : WireError),
      decodeAt buf offset = .error e ↔ Fault offset (buf.drop offset) e := by
  refine ⟨?_, ?_, fun _ _ _ => decodeAt_eq_error_iff⟩
  · intro n front tail
    refine ⟨?_, ArrayLength.length_encode n, ?_⟩
    · refine decodeAt_eq_ok_iff.mpr ⟨n.encode, tail, announces_encode n, ?_, rfl⟩
      rw [List.append_assoc, List.drop_left]
    · rw [encodedLen_val, ArrayLength.length_encode]
  · intro buf offset n next h
    obtain ⟨header, tail, hn, hrest, rfl⟩ := decodeAt_eq_ok_iff.mp h
    rw [encodedLen_val]
    have hlonger : offset + n.encode.length ≤ offset + header.length :=
      Nat.add_le_add_left hn.length_ge offset
    refine ⟨n.pos, add_length_le_of_drop hn.ne_nil hrest, hlonger, ?_⟩
    rw [Nat.add_right_inj, Nat.add_sub_cancel_left, hrest, List.take_left]
    exact hn.length_eq_iff

end ArrayHeader

end TaggedWire
