import Mathlib.Tactic.IntervalCases
import TaggedWire.Proofs.Element

/-!
Exact reading of array headers. A count has up to three headers, the shortest of which is written;
the reader accepts all of them and nothing else.
-/
namespace TaggedWire.ArrayHeader

/-- The headers that announce a count, whether or not a shorter one would do. -/
inductive Announces (n : Nat) : Bytes → Prop
  | fixArray : n ≤ 15 → Announces n [0x90 ||| UInt8.ofNat n]
  | array16 : n ≤ 65535 → Announces n (0xDC :: BigEndian.encode 2 n)
  | array32 : n ≤ maxElements → Announces n (0xDD :: BigEndian.encode 4 n)

theorem accept_eq_ok_iff {count used u : Nat} {n : ArrayLength} (h : count ≤ maxElements) :
    accept count used = .ok (n, u) ↔ count = n.val ∧ used = u := by
  by_cases hc : 0 < count
  · simp only [accept, ArrayLength.ofNat?, dif_pos (And.intro hc h), Except.ok.injEq,
      Prod.mk.injEq]
    constructor
    · rintro ⟨rfl, rfl⟩
      exact ⟨rfl, rfl⟩
    · rintro ⟨rfl, rfl⟩
      exact ⟨rfl, rfl⟩
  · have hn : ¬ (0 < count ∧ count ≤ maxElements) := fun hp => hc hp.1
    simp only [accept, ArrayLength.ofNat?, dif_neg hn, reduceCtorEq, false_iff]
    rintro ⟨rfl, -⟩
    exact hc n.pos

theorem readCount_append {width n : Nat} (h : n < 256 ^ width) (offset : Nat) (b : UInt8)
    (tail : Bytes) (context : String) :
    readCount width offset (b :: (BigEndian.encode width n ++ tail)) context =
      accept n (1 + width) := by
  have htake : (BigEndian.encode width n ++ tail).take width = BigEndian.encode width n :=
    List.take_left' (BigEndian.length_encode width n)
  rw [readCount, List.drop_one, List.tail_cons, htake, if_pos (BigEndian.length_encode width n),
    BigEndian.decode_encode_of_lt h]

theorem readCount_of_short {width : Nat} {left : Bytes} (h : left.length < width) (offset : Nat)
    (b : UInt8) (context : String) :
    readCount width offset (b :: left) context =
      .error (.truncated offset (1 + width) (left.length + 1) context) := by
  have hshort : ¬ (left.take width).length = width := by
    rw [List.length_take]
    omega
  rw [readCount, List.drop_one, List.tail_cons, if_neg hshort, List.length_cons]

theorem readCount_eq_ok_iff {width offset used : Nat} {b : UInt8} {left : Bytes}
    {context : String} {n : ArrayLength} (hw : 256 ^ width ≤ maxElements + 1) :
    readCount width offset (b :: left) context = .ok (n, used) ↔
      n.val < 256 ^ width ∧ used = 1 + width ∧
        ∃ tail, left = BigEndian.encode width n.val ++ tail := by
  constructor
  · intro h
    rcases Nat.lt_or_ge left.length width with hshort | hlong
    · rw [readCount_of_short hshort] at h
      cases h
    · have hlen : (left.take width).length = width := List.length_take_of_le hlong
      have hlt := BigEndian.decode_lt (left.take width)
      have hback := BigEndian.encode_decode (left.take width)
      rw [hlen] at hlt hback
      rw [← List.take_append_drop width left, ← hback, readCount_append hlt] at h
      obtain ⟨hn, rfl⟩ := (accept_eq_ok_iff (by omega)).mp h
      rw [hn] at hlt hback
      exact ⟨hlt, rfl, left.drop width, by rw [hback, List.take_append_drop]⟩
  · rintro ⟨hlt, rfl, tail, rfl⟩
    rw [readCount_append hlt]
    exact (accept_eq_ok_iff n.le_max).mpr ⟨rfl, rfl⟩

theorem high_or_low (b : UInt8) : (b &&& 0xF0) ||| (b &&& 0x0F) = b := by
  have hmask : ∀ i : Fin 8, ((0xF0#8)[i] || (0x0F#8)[i]) = true := by decide
  apply UInt8.toBitVec_inj.mp
  ext i hi
  rw [UInt8.toBitVec_or, UInt8.toBitVec_and, UInt8.toBitVec_and, BitVec.getElem_or,
    BitVec.getElem_and, BitVec.getElem_and, ← Bool.and_or_distrib_left]
  exact (congrArg _ (hmask ⟨i, hi⟩)).trans (Bool.and_true _)

/-- The low half of a short header is its count. -/
theorem eq_of_isFixArray {b : UInt8} (h : isFixArray b = true) :
    (b &&& 0x0F).toNat ≤ 15 ∧ b = 0x90 ||| UInt8.ofNat (b &&& 0x0F).toNat := by
  constructor
  · rw [UInt8.toNat_and]
    exact Nat.and_le_right
  · have hhigh : b &&& 0xF0 = 0x90 := beq_iff_eq.mp h
    rw [UInt8.ofNat_toNat, ← hhigh, high_or_low]

theorem isFixArray_of_le {n : Nat} (h : n ≤ 15) :
    isFixArray (0x90 ||| UInt8.ofNat n) = true ∧
      ((0x90 ||| UInt8.ofNat n) &&& 0x0F).toNat = n := by
  interval_cases n <;> decide

/-- A complete header is judged by its count alone. -/
theorem Announces.read_append {n : Nat} {header : Bytes} (h : Announces n header) (offset : Nat)
    (tail : Bytes) : read offset (header ++ tail) = accept n header.length := by
  cases h with
  | fixArray hle =>
    obtain ⟨hfix, hcount⟩ := isFixArray_of_le hle
    rw [List.singleton_append, read, if_pos hfix, hcount, List.length_singleton]
  | array16 hle =>
    have hlt : n < 256 ^ 2 := by omega
    rw [List.length_cons, BigEndian.length_encode]
    exact readCount_append hlt offset 0xDC tail "array16 header"
  | array32 hle =>
    have hlt : n < 256 ^ 4 := by
      unfold maxElements at hle
      omega
    rw [List.length_cons, BigEndian.length_encode]
    exact readCount_append hlt offset 0xDD tail "array32 header"

theorem read_eq_ok_iff {offset used : Nat} {rest : Bytes} {n : ArrayLength} :
    read offset rest = .ok (n, used) ↔
      ∃ header tail, Announces n.val header ∧ rest = header ++ tail ∧ used = header.length := by
  constructor
  · intro h
    cases rest with
    | nil => cases h
    | cons b left =>
      simp only [read] at h
      split at h
      · rename_i hfix
        obtain ⟨hle, hb⟩ := eq_of_isFixArray hfix
        obtain ⟨hn, rfl⟩ := (accept_eq_ok_iff (by unfold maxElements; omega)).mp h
        rw [hn] at hle hb
        exact ⟨[b], left, hb ▸ .fixArray hle, rfl, rfl⟩
      · split at h
        · rename_i hb
          obtain ⟨hlt, rfl, tail, rfl⟩ := (readCount_eq_ok_iff (by decide)).mp h
          refine ⟨_, tail, .array16 (by omega), ?_, ?_⟩
          · rw [hb, List.cons_append]
            rfl
          · rw [List.length_cons, BigEndian.length_encode]
        · split at h
          · rename_i hb
            obtain ⟨-, rfl, tail, rfl⟩ := (readCount_eq_ok_iff (by decide)).mp h
            refine ⟨_, tail, .array32 n.le_max, ?_, ?_⟩
            · rw [hb, List.cons_append]
              rfl
            · rw [List.length_cons, BigEndian.length_encode]
          · cases h
  · rintro ⟨header, tail, hform, rfl, rfl⟩
    rw [hform.read_append]
    exact (accept_eq_ok_iff n.le_max).mpr ⟨rfl, rfl⟩

/-- A byte string starts with at most one header, and that header announces one count. -/
theorem Announces.unique {n m : ArrayLength} {header header' tail tail' : Bytes}
    (h : Announces n.val header) (h' : Announces m.val header')
    (heq : header ++ tail = header' ++ tail') : n = m ∧ header = header' := by
  have hread : read 0 (header ++ tail) = .ok (n, header.length) :=
    read_eq_ok_iff.mpr ⟨header, tail, h, rfl, rfl⟩
  have hread' : read 0 (header ++ tail) = .ok (m, header'.length) :=
    read_eq_ok_iff.mpr ⟨header', tail', h', heq, rfl⟩
  rw [hread, Except.ok.injEq, Prod.mk.injEq] at hread'
  exact ⟨hread'.1, (List.append_inj heq hread'.2).1⟩

theorem announces_encode (n : ArrayLength) : Announces n.val n.encode := by
  unfold ArrayLength.encode ArrayLength.form
  by_cases h15 : n.val ≤ 15
  · rw [if_pos h15]
    exact .fixArray h15
  · by_cases h16 : n.val ≤ 65535
    · rw [if_neg h15, if_pos h16]
      exact .array16 h16
    · rw [if_neg h15, if_neg h16]
      exact .array32 n.le_max

theorem decodeAt_eq_ok_iff {buf : Bytes} {offset next : Nat} {n : ArrayLength} :
    decodeAt buf offset = .ok (n, next) ↔
      ∃ header tail, Announces n.val header ∧ buf.drop offset = header ++ tail ∧
        next = offset + header.length := by
  simp only [decodeAt, bind_eq_ok_iff, Prod.exists, read_eq_ok_iff, pure, Except.pure,
    Except.ok.injEq, Prod.mk.injEq]
  constructor
  · rintro ⟨_, _, ⟨header, tail, hform, hbuf, rfl⟩, rfl, rfl⟩
    exact ⟨header, tail, hform, hbuf, rfl⟩
  · rintro ⟨header, tail, hform, hbuf, rfl⟩
    exact ⟨n, header.length, ⟨header, tail, hform, hbuf, rfl⟩, rfl, rfl⟩

theorem expectAt_eq_ok_iff {buf : Bytes} {offset next : Nat} {expected : ArrayLength} :
    expectAt buf offset expected = .ok next ↔
      ∃ header tail, Announces expected.val header ∧ buf.drop offset = header ++ tail ∧
        next = offset + header.length := by
  simp only [expectAt, bind_eq_ok_iff, Prod.exists]
  constructor
  · rintro ⟨n, next', hdec, h⟩
    split at h
    · rename_i heq
      cases h
      rw [← heq]
      exact decodeAt_eq_ok_iff.mp hdec
    · cases h
  · intro h
    exact ⟨expected, next, decodeAt_eq_ok_iff.mpr h, if_pos rfl⟩

theorem Announces.expectAt_append {n : ArrayLength} {header : Bytes} (h : Announces n.val header)
    (tail : Bytes) : expectAt (header ++ tail) 0 n = .ok header.length :=
  expectAt_eq_ok_iff.mpr ⟨header, tail, h, List.drop_zero, (Nat.zero_add _).symm⟩

/-- The length that is known without a count at hand is the length of the header. -/
theorem encodedLen_val (n : ArrayLength) : encodedLen n.val = n.encode.length := by
  rw [ArrayLength.length_encode, ArrayLength.encodedLen, ArrayLength.form, encodedLen]
  by_cases h15 : n.val ≤ 15
  · rw [if_pos h15, if_pos h15]
    rfl
  · by_cases h16 : n.val ≤ 65535
    · rw [if_neg h15, if_pos h16, if_neg h15, if_pos h16]
      rfl
    · rw [if_neg h15, if_neg h16, if_neg h15, if_neg h16]
      rfl

/-- The header that is written is the shortest one of its count. -/
theorem Announces.length_ge {n : ArrayLength} {header : Bytes} (h : Announces n.val header) :
    n.encode.length ≤ header.length := by
  rw [← encodedLen_val, encodedLen]
  cases h with
  | fixArray hle => rw [if_pos hle, List.length_singleton]
  | array16 hle =>
    rw [List.length_cons, BigEndian.length_encode, if_pos hle]
    split <;> decide
  | array32 =>
    rw [List.length_cons, BigEndian.length_encode]
    split
    · decide
    · split <;> decide

end TaggedWire.ArrayHeader
