import TaggedWire.Proofs.Element

/-!
Exact checking of trailers: the bytes that pass are those that end in the trailer of what stands
before it.
-/
namespace TaggedWire.Trailer

@[simp] theorem length_encode (c : UInt16) : (encode c).length = len :=
  Kind.length_encode .uint16 c

theorem encode_injective {c c' : UInt16} (h : encode c = encode c') : c = c' := by
  have hread := Kind.read_encode_append .uint16 c 0 []
  have hread' := Kind.read_encode_append .uint16 c' 0 []
  rw [show Kind.encode .uint16 c = Kind.encode .uint16 c' from h, hread'] at hread
  cases hread
  rfl

/-- A trailer is a tag byte and two bytes that spell its checksum. -/
theorem encode_spelled (hi lo : UInt8) :
    encode (UInt16.ofNat (hi.toNat * 256 + lo.toNat)) = [0xCD, hi, lo] := by
  have hdecode : BigEndian.decode [hi, lo] = hi.toNat * 256 + lo.toNat := by
    simp [BigEndian.decode]
  have hbytes : Word.bytes (Word.ofBytes [hi, lo] : UInt16) = [hi, lo] := Word.bytes_ofBytes rfl
  rw [Word.ofBytes, hdecode] at hbytes
  exact congrArg (List.cons 0xCD) hbytes

theorem exists_spelled (c : UInt16) :
    ∃ hi lo : UInt8, [hi, lo] = BigEndian.encode 2 c.toNat ∧
      c = UInt16.ofNat (hi.toNat * 256 + lo.toNat) := by
  refine ⟨_, _, rfl, encode_injective ?_⟩
  rw [encode_spelled]
  rfl

theorem check_eq_ok_iff {bytes : Bytes} {c : UInt16} :
    check bytes = .ok c ↔
      ∃ covered, bytes = covered ++ encode c ∧ c = Checksum.ofBytes covered := by
  constructor
  · intro h
    unfold check at h
    split at h
    · cases h
    · rename_i hlen
      obtain ⟨stored, hstored, h⟩ := bind_eq_ok_iff.mp h
      obtain ⟨tail, hstored⟩ := Kind.decodeAt_eq_ok_iff.mp hstored
      dsimp only at h
      split at h
      · rename_i hsame
        cases h
        refine ⟨bytes.take (bytes.length - len), ?_, hsame⟩
        -- only three bytes are left where the trailer was read, so nothing follows it
        have htail : tail = [] := by
          have hsize := congrArg List.length hstored
          rw [List.length_drop, List.length_append, Kind.length_encode] at hsize
          have hwidth : Kind.encodedLen .uint16 = len := rfl
          exact List.length_eq_zero_iff.mp (by omega)
        rw [htail, List.append_nil] at hstored
        conv_lhs => rw [← List.take_append_drop (bytes.length - len) bytes]
        rw [hstored]
        rfl
      · cases h
  · rintro ⟨covered, rfl, hc⟩
    have hlen : (covered ++ encode c).length - len = covered.length := by
      rw [List.length_append, length_encode, Nat.add_sub_cancel]
    have hroom : ¬ (covered ++ encode c).length < len := by
      rw [List.length_append, length_encode]
      omega
    have hstored : Kind.decodeAt .uint16 (covered ++ encode c) covered.length = .ok c :=
      Kind.decodeAt_eq_ok_iff.mpr ⟨[], by rw [List.drop_left, List.append_nil]; rfl⟩
    unfold check
    rw [if_neg hroom]
    simp only [hlen, hstored, bind, Except.bind, List.take_left, if_pos hc]
    rfl

theorem verify_of_check {bytes : Bytes} {c : UInt16} (h : check bytes = .ok c) :
    verify bytes = true := by
  rw [verify, h]
  rfl

theorem verify_eq_true_iff {bytes : Bytes} :
    verify bytes = true ↔
      ∃ covered, bytes = covered ++ encode (Checksum.ofBytes covered) := by
  constructor
  · intro h
    cases hc : check bytes with
    | error e => simp [verify, hc, Except.isOk, Except.toBool] at h
    | ok c =>
      obtain ⟨covered, hbytes, rfl⟩ := check_eq_ok_iff.mp hc
      exact ⟨covered, hbytes⟩
  · rintro ⟨covered, hbytes⟩
    exact verify_of_check (check_eq_ok_iff.mpr ⟨covered, hbytes, rfl⟩)

end TaggedWire.Trailer
