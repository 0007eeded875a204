import TaggedWire.Proofs.RoundTrip

/-!
What the result of parsing hangs on. Once a message is accepted, its result is settled by its own
bytes: cut anywhere it is truncated, what stands behind it is ignored or refused as a whole, and a
more permissive configuration reads the same from it.
-/
namespace TaggedWire

namespace ArrayHeader

theorem readCount_take {width offset n k : Nat} {b : UInt8} {context : String} (hk : k < width) :
    readCount width offset (b :: (BigEndian.encode width n).take k) context =
      .error (.truncated offset (1 + width) (k + 1) context) := by
  have hleft : ((BigEndian.encode width n).take k).length = k := by
    rw [List.length_take, BigEndian.length_encode]
    omega
  rw [readCount_of_short (by omega), hleft]

/-- Of a header that is cut off, nothing is said but that bytes are missing. -/
theorem Announces.read_take {n k : Nat} {header : Bytes} (h : Announces n header)
    (hk : k < header.length) (offset : Nat) :
    ∃ need context, k < need ∧ need ≤ header.length ∧
      read offset (header.take k) = .error (.truncated offset need k context) := by
  cases k with
  | zero => exact ⟨1, "array header", Nat.one_pos, hk, rfl⟩
  | succ k =>
    cases h with
    -- a header of one byte has no cut behind its first byte
    | fixArray => exact absurd (Nat.lt_of_succ_lt_succ hk) (Nat.not_lt_zero k)
    | array16 =>
      rw [List.length_cons, BigEndian.length_encode] at hk ⊢
      exact ⟨3, "array16 header", hk, Nat.le_refl _, readCount_take (Nat.lt_of_succ_lt_succ hk)⟩
    | array32 =>
      rw [List.length_cons, BigEndian.length_encode] at hk ⊢
      exact ⟨5, "array32 header", hk, Nat.le_refl _, readCount_take (Nat.lt_of_succ_lt_succ hk)⟩

theorem Announces.expectAt_take {n : ArrayLength} {k : Nat} {header : Bytes}
    (h : Announces n.val header) (hk : k < header.length) :
    ∃ need context, k < need ∧ need ≤ header.length ∧
      expectAt (header.take k) 0 n = .error (.truncated 0 need k context) := by
  obtain ⟨need, context, hlt, hle, hread⟩ := h.read_take hk 0
  refine ⟨need, context, hlt, hle, ?_⟩
  rw [expectAt, decodeAt, List.drop_zero, hread]
  rfl

end ArrayHeader

namespace Schema

variable {s : Schema} {c : Config}

theorem parse_of_frame_error {input : Bytes} {e : WireError} (hlimit : c.Permits input.length)
    (hframe : s.frame c input = .error e) : s.parse c input = .error e := by
  rw [parse, checkLimit_eq_ok_iff.mpr hlimit, hframe]
  rfl

theorem parse_of_exceeding {input : Bytes} {max : UInt64} (hmax : c.maxMessageSize = some max)
    (hlong : max.toNat < input.length) :
    s.parse c input = .error (.messageTooLarge input.length max.toNat) := by
  rw [parse, checkLimit, hmax]
  dsimp only
  rw [if_pos hlong]
  rfl

theorem frame_of_short {header left : Bytes}
    (hheader : ArrayHeader.Announces s.elementCount header)
    (hshort : left.length < s.bodyLen + s.trailerLen) :
    s.frame c (header ++ left) =
      .error (.truncated 0 (header.length + s.bodyLen + s.trailerLen) (header ++ left).length
        "message body") := by
  have hexpect := hheader.expectAt_append (n := s.headerLength) left
  have hlen : (header ++ left).length < header.length + s.bodyLen + s.trailerLen := by
    rw [List.length_append]
    omega
  rw [frame, hexpect]
  simp only [bind, Except.bind, if_pos hlen]
  rfl

theorem frame_of_trailing {header left rest : Bytes}
    (hheader : ArrayHeader.Announces s.elementCount header)
    (hlen : left.length = s.bodyLen + s.trailerLen) (hrest : rest ≠ [])
    (hstrict : c.decode.allowTrailingBytes = false) :
    s.frame c (header ++ (left ++ rest)) =
      .error (.trailingBytes (header ++ left).length (header ++ (left ++ rest)).length) := by
  have hexpect := hheader.expectAt_append (n := s.headerLength) (left ++ rest)
  have hsize : header.length + s.bodyLen + s.trailerLen = (header ++ left).length := by
    rw [List.length_append, hlen, Nat.add_assoc]
  have hpos := List.length_pos_of_ne_nil hrest
  have hroom : ¬ (header ++ (left ++ rest)).length < (header ++ left).length := by
    simp only [List.length_append]
    omega
  have hlong : (decide ((header ++ left).length < (header ++ (left ++ rest)).length) &&
      !c.decode.allowTrailingBytes) = true := by
    simp only [hstrict, List.length_append, Bool.not_false, Bool.and_true, decide_eq_true_eq]
    omega
  rw [frame, hexpect]
  simp only [bind, Except.bind, hsize, if_neg hroom, if_pos hlong]
  rfl

end Schema

namespace Parts.Admitted

variable {s : Schema} {c : Config} {p : Parts}

/-- Wherever a message is cut, within the header or behind it, it is found to be too short. -/
theorem frame_take (hp : p.Admitted s c) {k : Nat} (hk : k < p.message.length) :
    ∃ need context, k < need ∧ need ≤ p.message.length ∧
      s.frame c (p.message.take k) = .error (.truncated 0 need k context) := by
  have hlen := hp.length_body
  have hmessage : p.message = p.header ++ (Schema.encodeBody p.values ++ p.trailer) :=
    List.append_assoc _ _ _
  have hsize : p.message.length = p.header.length + s.bodyLen + s.trailerLen := by
    rw [hmessage, List.length_append, hlen, Nat.add_assoc]
  -- a cut within the header is found in reading it, one behind it by the size of the message
  rcases Nat.lt_or_ge k p.header.length with hheader | hbody
  · obtain ⟨need, context, hlt, hle, hexpect⟩ :=
      ArrayHeader.Announces.expectAt_take (n := s.headerLength) hp.header hheader
    refine ⟨need, context, hlt, by omega, ?_⟩
    rw [hmessage, List.take_append_of_le_length (Nat.le_of_lt hheader), Schema.frame, hexpect]
    rfl
  · have hcut : p.message.take k =
        p.header ++ (Schema.encodeBody p.values ++ p.trailer).take (k - p.header.length) := by
      rw [hmessage, List.take_append, List.take_of_length_le hbody]
    have htake : (p.message.take k).length = k := by
      rw [List.length_take]
      omega
    have hleft : ((Schema.encodeBody p.values ++ p.trailer).take (k - p.header.length)).length <
        s.bodyLen + s.trailerLen := by
      rw [List.length_take]
      omega
    have hshort := Schema.frame_of_short (c := c) hp.header hleft
    rw [← hcut, htake, ← hsize] at hshort
    exact ⟨p.message.length, "message body", hk, Nat.le_refl _, hshort⟩

theorem parse_take (hp : p.Admitted s c) (hlimit : c.Permits p.bytes.length) {k : Nat}
    (hk : k < p.message.length) :
    ∃ need context, k < need ∧ need ≤ p.message.length ∧
      s.parse c (p.bytes.take k) = .error (.truncated 0 need k context) := by
  obtain ⟨need, context, hlt, hle, hframe⟩ := hp.frame_take hk
  refine ⟨need, context, hlt, hle, Schema.parse_of_frame_error ?_ ?_⟩
  · intro max hmax
    have hmaxle := hlimit max hmax
    rw [List.length_take]
    omega
  · rw [bytes, List.take_append_of_le_length (Nat.le_of_lt hk)]
    exact hframe

/-- Other bytes behind a message change the result only where such bytes are refused. -/
theorem parse_append (hp : p.Admitted s c) {extra : Bytes}
    (hlimit : c.Permits (p.message ++ extra).length) :
    s.parse c (p.message ++ extra) =
      if extra = [] ∨ c.decode.allowTrailingBytes = true then .ok (p.decoded s)
      else .error (.trailingBytes p.message.length (p.message ++ extra).length) := by
  split
  · rename_i hallowed
    refine Schema.parse_eq_ok_iff.mpr ⟨hlimit, { p with rest := extra },
      ⟨hp.header, hp.values, hp.trailer, ?_⟩, rfl, rfl⟩
    intro hstrict
    rcases hallowed with hnil | hallow
    · exact hnil
    · exact absurd (hstrict.symm.trans hallow) Bool.false_ne_true
  · rename_i hrefused
    obtain ⟨hextra, hstrict⟩ := not_or.mp hrefused
    have hframe := Schema.frame_of_trailing hp.header hp.length_body hextra
      (Bool.eq_false_of_not_eq_true hstrict)
    simp only [← List.append_assoc] at hframe
    exact Schema.parse_of_frame_error hlimit hframe

end Parts.Admitted

/-- Cut anywhere before its end, an accepted message is reported as truncated, with the bytes there
are and a need of more. Followed by any bytes, it is refused for its size, or decoded as before, or
refused for the trailing bytes, and none of this depends on what these bytes are. -/
theorem Schema.parse_take_append (s : Schema) (c : Config) (input : Bytes) (d : Decoded)
    (hparse : s.parse c input = .ok d) :
    d.len ≤ input.length ∧
    (∀ k, k < d.len → ∃ need context, k < need ∧ need ≤ d.len ∧
      s.parse c (input.take k) = .error (.truncated 0 need k context)) ∧
    ∀ extra : Bytes,
      (∀ max, c.maxMessageSize = some max → max.toNat < d.len + extra.length →
        s.parse c (input.take d.len ++ extra) =
          .error (.messageTooLarge (d.len + extra.length) max.toNat)) ∧
      (c.Permits (d.len + extra.length) →
        s.parse c (input.take d.len ++ extra) =
          if extra = [] ∨ c.decode.allowTrailingBytes = true then .ok d
          else .error (.trailingBytes d.len (d.len + extra.length))) := by
  obtain ⟨hlimit, p, hp, rfl, rfl⟩ := parse_eq_ok_iff.mp hparse
  have hfront : p.bytes.take (p.decoded s).len = p.message := List.take_left
  refine ⟨?_, fun k hk => hp.parse_take hlimit hk, ?_⟩
  · rw [Parts.bytes, List.length_append]
    exact Nat.le_add_right _ _
  · intro extra
    have hlen : (p.message ++ extra).length = (p.decoded s).len + extra.length := List.length_append
    rw [hfront, ← hlen]
    exact ⟨fun _ hmax hlong => parse_of_exceeding hmax hlong, fun hfits => hp.parse_append hfits⟩

/-- A message of `reading` with a longer header than needed, and two bytes after its end. -/
def readingPadded : Bytes :=
  [0xDC, 0x00, 0x04, 0xCD, 0x00, 0x07, 0xCA, 0x7F, 0xA0, 0x00, 0x01, 0xCA, 0x80, 0x00, 0x00, 0x00,
    0xC3, 0xCD, 0x76, 0xF3, 0xAA, 0xBB]

def readingDecoded : Decoded :=
  ⟨reading, List.zipWith DecodedField.mk reading.fields readingValues, some 0x76F3, 20⟩

theorem parse_take_append_reading :
    reading.parse ⟨some 24, ⟨false, true⟩⟩ readingPadded = .ok readingDecoded ∧
    (∃ need context, 2 < need ∧ need ≤ 20 ∧
      reading.parse ⟨some 24, ⟨false, true⟩⟩ (readingPadded.take 2) =
        .error (.truncated 0 need 2 context)) ∧
    reading.parse ⟨some 24, ⟨false, true⟩⟩ (readingPadded.take 20 ++ [0x01, 0x02, 0x03, 0x04]) =
      .ok readingDecoded ∧
    reading.parse ⟨some 24, ⟨false, true⟩⟩
        (readingPadded.take 20 ++ [0x01, 0x02, 0x03, 0x04, 0x05]) =
      .error (.messageTooLarge 25 24) := by
  have hparse : reading.parse ⟨some 24, ⟨false, true⟩⟩ readingPadded = .ok readingDecoded := by
    decide
  obtain ⟨-, hcut, hextend⟩ := reading.parse_take_append _ _ _ hparse
  refine ⟨hparse, hcut 2 (by decide), (hextend _).2 ?_, (hextend _).1 24 rfl (by decide)⟩
  intro max hmax
  cases hmax
  decide

/-- `c'` permits whatever `c` permits: its limit is no lower, it compares a trailer only if `c`
does, and it accepts trailing bytes if `c` does. -/
structure Config.RelaxesTo (c c' : Config) : Prop where
  limit : ∀ max', c'.maxMessageSize = some max' → ∃ max, c.maxMessageSize = some max ∧ max ≤ max'
  verify : c'.decode.verifyChecksum = true → c.decode.verifyChecksum = true
  trailing : c.decode.allowTrailingBytes = true → c'.decode.allowTrailingBytes = true

theorem Config.RelaxesTo.permits {c c' : Config} (h : c.RelaxesTo c') {size : Nat}
    (hsize : c.Permits size) : c'.Permits size := by
  intro max' hmax'
  obtain ⟨max, hmax, hle⟩ := h.limit max' hmax'
  exact Nat.le_trans (hsize max hmax) (UInt64.le_iff_toNat_le.mp hle)

/-- A trailer remains one where it is not compared, and where the comparison succeeds. -/
theorem Sealed.of_verify {s : Schema} {v w : Bool} {covered trailer : Bytes}
    {checksum : Option UInt16} (h : Sealed s v covered trailer checksum)
    (hw : s.appendChecksum = true → w = true →
      v = true ∨ Trailer.verify (covered ++ trailer) = true) :
    Sealed s w covered trailer checksum := by
  cases hs : s.appendChecksum with
  | false => exact (iff_of_absent hs).mpr ((iff_of_absent hs).mp h)
  | true =>
    obtain ⟨stored, rfl, rfl, hstored⟩ := (iff_of_present hs).mp h
    refine (iff_of_present hs).mpr ⟨stored, rfl, rfl, ?_⟩
    intro hverify
    rcases hw hs hverify with hv | hmatch
    · exact hstored hv
    · obtain ⟨covered', heq⟩ := Trailer.verify_eq_true_iff.mp hmatch
      obtain ⟨rfl, hencode⟩ := List.append_inj' heq
        (by rw [Trailer.length_encode, Trailer.length_encode])
      exact Trailer.encode_injective hencode

/-- A relaxed configuration decodes every message as the stricter one does. What the stricter one
accepts is what the relaxed one accepts, less the inputs that are above its limit, that have bytes
behind the message, or whose trailer is not that of the message. -/
theorem Schema.parse_ok_iff_of_relaxed (s : Schema) (c c' : Config) (input : Bytes) (d : Decoded)
    (hrelax : c.RelaxesTo c') :
    s.parse c input = .ok d ↔
      s.parse c' input = .ok d ∧ c.Permits input.length ∧
        (c.decode.allowTrailingBytes = false → d.len = input.length) ∧
        (s.appendChecksum = true → c.decode.verifyChecksum = true →
          Trailer.verify (input.take d.len) = true) := by
  constructor
  · intro h
    obtain ⟨hlimit, p, hp, rfl, rfl⟩ := parse_eq_ok_iff.mp h
    have hrelaxed : p.Admitted s c' :=
      { header := hp.header
        values := hp.values
        trailer := hp.trailer.of_verify fun _ hv => .inl (hrelax.verify hv)
        rest := fun hstrict => hp.rest (Bool.eq_false_of_not_eq_true fun hallow =>
          Bool.false_ne_true (hstrict.symm.trans (hrelax.trailing hallow))) }
    refine ⟨parse_eq_ok_iff.mpr ⟨hrelax.permits hlimit, p, hrelaxed, rfl, rfl⟩, hlimit, ?_, ?_⟩
    · intro hstrict
      rw [Parts.bytes, hp.rest hstrict, List.append_nil]
      rfl
    · intro hs hverify
      rw [Parts.decoded, Parts.bytes, List.take_left]
      exact hp.verify_message hs hverify
  · rintro ⟨h, hlimit, hrest, hmatch⟩
    obtain ⟨-, p, hp, rfl, rfl⟩ := parse_eq_ok_iff.mp h
    rw [Parts.decoded, Parts.bytes, List.take_left] at hmatch
    refine parse_eq_ok_iff.mpr ⟨hlimit, p, ⟨hp.header, hp.values, ?_, ?_⟩, rfl, rfl⟩
    · exact hp.trailer.of_verify fun hs hv => .inr (hmatch hs hv)
    · intro hstrict
      have hlen := hrest hstrict
      rw [Parts.decoded, Parts.bytes, List.length_append] at hlen
      exact List.length_eq_zero_iff.mp (Nat.left_eq_add.mp hlen)

theorem parse_ok_iff_of_relaxed_reading :
    reading.parse ⟨some 20, ⟨true, false⟩⟩ (readingPadded.take 20) = .ok readingDecoded ∧
      reading.parse ⟨some 64, ⟨false, true⟩⟩ (readingPadded.take 20) = .ok readingDecoded := by
  have hstrict : reading.parse ⟨some 20, ⟨true, false⟩⟩ (readingPadded.take 20) =
      .ok readingDecoded := by decide +kernel
  have hrelax : Config.RelaxesTo ⟨some 20, ⟨true, false⟩⟩ ⟨some 64, ⟨false, true⟩⟩ := by
    refine ⟨?_, fun _ => rfl, fun _ => rfl⟩
    intro max hmax
    cases hmax
    exact ⟨20, rfl, by decide⟩
  exact ⟨hstrict, ((reading.parse_ok_iff_of_relaxed _ _ _ _ hrelax).mp hstrict).1⟩

end TaggedWire
