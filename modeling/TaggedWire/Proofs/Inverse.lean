import TaggedWire.Proofs.Confusion
import TaggedWire.Proofs.Reading

/-!
Single values, written and read. Main statement: reading undoes writing wherever a value stands,
writing undoes reading byte for byte, no place holds values of two kinds, and the bytes of several
values tell them apart without any separator.
-/
namespace TaggedWire

theorem exists_tail_iff {buf front : Bytes} {offset : Nat} (hne : front ≠ []) :
    (∃ tail, buf.drop offset = front ++ tail) ↔
      offset + front.length ≤ buf.length ∧ (buf.drop offset).take front.length = front := by
  constructor
  · rintro ⟨tail, h⟩
    refine ⟨add_length_le_of_drop hne h, ?_⟩
    rw [h, List.take_left]
  · rintro ⟨-, h⟩
    refine ⟨(buf.drop offset).drop front.length, ?_⟩
    have hsplit := List.take_append_drop front.length (buf.drop offset)
    rw [h] at hsplit
    exact hsplit.symm

namespace Value

theorem encode_ne_nil (v : Value) : v.encode ≠ [] := by
  obtain ⟨t, payload, hv, -⟩ := exists_encode_cons v
  rw [hv]
  exact List.cons_ne_nil t payload

/-- No separator is needed between values: each of them says where it ends. -/
theorem encodeAll_injective {vs ws : List Value} (h : encodeAll vs = encodeAll ws) : vs = ws := by
  induction vs generalizing ws with
  | nil =>
    cases ws with
    | nil => rfl
    | cons w ws =>
      rw [encodeAll_nil, encodeAll_cons] at h
      exact absurd (List.append_eq_nil_iff.mp h.symm).1 w.encode_ne_nil
  | cons v vs ih =>
    cases ws with
    | nil =>
      rw [encodeAll_nil, encodeAll_cons] at h
      exact absurd (List.append_eq_nil_iff.mp h).1 v.encode_ne_nil
    | cons w ws =>
      rw [encodeAll_cons, encodeAll_cons] at h
      obtain ⟨rfl, hrest⟩ := encode_append_inj h
      rw [ih hrest]

theorem decodeAt_of_other_kind {v : Value} {j : Kind} {buf tail : Bytes} {offset : Nat}
    (hbuf : buf.drop offset = v.encode ++ tail) (hj : j ≠ v.kind) :
    ∃ t, buf[offset]? = some t ∧ decodeAt j buf offset = .error (.tagMismatch offset j.name t) := by
  obtain ⟨t, payload, hv, ht⟩ := exists_encode_cons v
  rw [hv, List.cons_append] at hbuf
  have hrefused : j.accepts t = false := by
    by_contra hacc
    exact hj (Kind.eq_of_accepts (Bool.eq_true_of_not_eq_false hacc) ht)
  refine ⟨t, ?_, ?_⟩
  · rw [← List.head?_drop, hbuf]
    rfl
  · rw [decodeAt_eq, Kind.decodeAt_of_refused hbuf hrefused]
    rfl

/-- A value is read back from any place between any bytes. What is read as a kind is a value of the
kind whose bytes stand there, and nothing else is; every other kind finds its tag missing. Values of
a known kind are written and read as the others are, also where reading fails. Lists of values with
the same bytes are equal. -/
theorem encode_decodeAt_inverse :
    (∀ (v : Value) (front tail : Bytes),
      decodeAt v.kind (front ++ v.encode ++ tail) front.length = .ok v) ∧
    (∀ (k : Kind) (buf : Bytes) (offset : Nat) (v : Value),
      (decodeAt k buf offset = .ok v ↔
        v.kind = k ∧ offset + k.encodedLen ≤ buf.length ∧
          (buf.drop offset).take k.encodedLen = v.encode) ∧
      (decodeAt k buf offset = .ok v → ∀ j, j ≠ v.kind →
        ∃ t, buf[offset]? = some t ∧
          decodeAt j buf offset = .error (.tagMismatch offset j.name t))) ∧
    (∀ (k : Kind) (n : k.Native), (ofNative k n).encode = k.encode n) ∧
    (∀ (k : Kind) (buf : Bytes) (offset : Nat),
      decodeAt k buf offset = ofNative k <$> k.decodeAt buf offset) ∧
    ∀ vs ws : List Value, vs.flatMap encode = ws.flatMap encode → vs = ws := by
  refine ⟨?_, ?_, encode_ofNative, decodeAt_eq, fun _ _ => encodeAll_injective⟩
  · intro v front tail
    refine decodeAt_eq_ok_iff.mpr ⟨rfl, tail, ?_⟩
    rw [List.append_assoc, List.drop_left]
  · intro k buf offset v
    constructor
    · rw [decodeAt_eq_ok_iff, exists_tail_iff v.encode_ne_nil, length_encode]
      refine and_congr_right ?_
      rintro rfl
      exact Iff.rfl
    · intro h j hj
      obtain ⟨-, tail, hbuf⟩ := decodeAt_eq_ok_iff.mp h
      exact decodeAt_of_other_kind hbuf hj

end Value

end TaggedWire
