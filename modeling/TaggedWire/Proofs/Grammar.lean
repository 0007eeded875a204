import TaggedWire.Proofs.Header
import TaggedWire.Proofs.Trailer

/-!
The grammar of messages. A byte string is cut into a header, the encoded values of the fields, a
trailer and what follows the message; `Parts.Admitted` says which cuts a schema and a configuration
allow. Main statement: parsing succeeds exactly on the byte strings that have an allowed cut, the
cut is unique, and the result is read off from it.
-/
namespace TaggedWire

/-- A byte string cut where a message can be cut. -/
structure Parts where
  header : Bytes
  /-- The values of each field, in the order of the schema. -/
  values : List (List Value)
  trailer : Bytes
  /-- The checksum that the trailer stores. -/
  checksum : Option UInt16
  /-- Bytes after the message. -/
  rest : Bytes

namespace Parts

/-- What a checksum speaks about. -/
def covered (p : Parts) : Bytes :=
  p.header ++ Schema.encodeBody p.values

def message (p : Parts) : Bytes :=
  p.covered ++ p.trailer

def bytes (p : Parts) : Bytes :=
  p.message ++ p.rest

/-- What parsing makes of the parts. -/
def decoded (s : Schema) (p : Parts) : Decoded :=
  ⟨s, Schema.decodedFields s.fields p.values, p.checksum, p.message.length⟩

end Parts

/-- The trailers of a message, with the checksum that each of them stores. The stored bytes are
bound to the covered ones only where they are verified. -/
inductive Sealed (s : Schema) (verify : Bool) (covered : Bytes) : Bytes → Option UInt16 → Prop
  | absent : s.appendChecksum = false → Sealed s verify covered [] none
  | stored (hi lo : UInt8) : s.appendChecksum = true →
      (verify = true → [hi, lo] = BigEndian.encode 2 (Checksum.ofBytes covered).toNat) →
      Sealed s verify covered [0xCD, hi, lo] (some (UInt16.ofNat (hi.toNat * 256 + lo.toNat)))

/-- The cuts that a schema and a configuration allow. -/
structure Parts.Admitted (s : Schema) (c : Config) (p : Parts) : Prop where
  header : ArrayHeader.Announces s.elementCount p.header
  values : List.Forall₂ Field.Holds s.fields p.values
  trailer : Sealed s c.decode.verifyChecksum p.covered p.trailer p.checksum
  rest : c.decode.allowTrailingBytes = false → p.rest = []

/-- The size of an input is within the limit of the configuration. -/
def Config.Permits (c : Config) (size : Nat) : Prop :=
  ∀ max, c.maxMessageSize = some max → size ≤ max.toNat

theorem Schema.checkLimit_eq_ok_iff {c : Config} {input : Bytes} :
    checkLimit c input = .ok () ↔ c.Permits input.length := by
  unfold checkLimit Config.Permits
  cases c.maxMessageSize with
  | none => simp
  | some max =>
    by_cases h : max.toNat < input.length
    · simp [h]
    · simp [Nat.le_of_not_lt h, h]

theorem Sealed.iff_of_absent {s : Schema} {verify : Bool} {covered trailer : Bytes}
    {checksum : Option UInt16} (h : s.appendChecksum = false) :
    Sealed s verify covered trailer checksum ↔ trailer = [] ∧ checksum = none := by
  constructor
  · intro hs
    cases hs with
    | absent => exact ⟨rfl, rfl⟩
    | stored hi lo hc => exact absurd (h.symm.trans hc) Bool.false_ne_true
  · rintro ⟨rfl, rfl⟩
    exact .absent h

theorem Sealed.iff_of_present {s : Schema} {verify : Bool} {covered trailer : Bytes}
    {checksum : Option UInt16} (h : s.appendChecksum = true) :
    Sealed s verify covered trailer checksum ↔
      ∃ stored, trailer = Trailer.encode stored ∧ checksum = some stored ∧
        (verify = true → stored = Checksum.ofBytes covered) := by
  constructor
  · intro hs
    cases hs with
    | absent hc => exact absurd (hc.symm.trans h) Bool.false_ne_true
    | stored hi lo _ hv =>
      refine ⟨_, (Trailer.encode_spelled hi lo).symm, rfl, ?_⟩
      intro hverify
      apply Trailer.encode_injective
      rw [Trailer.encode_spelled, hv hverify]
      rfl
  · rintro ⟨stored, rfl, rfl, hv⟩
    obtain ⟨hi, lo, hspell, hstored⟩ := Trailer.exists_spelled stored
    have hencode : Trailer.encode stored = [0xCD, hi, lo] := by
      rw [hstored, Trailer.encode_spelled]
    rw [hencode, hstored]
    refine .stored hi lo h ?_
    intro hverify
    rw [hspell, hv hverify]

theorem Sealed.length_eq {s : Schema} {verify : Bool} {covered trailer : Bytes}
    {checksum : Option UInt16} (h : Sealed s verify covered trailer checksum) :
    trailer.length = s.trailerLen := by
  cases h with
  | absent hc => simp [Schema.trailerLen, hc]
  | stored hi lo hc => simp [Schema.trailerLen, hc, Trailer.len]

theorem Parts.Admitted.length_body {s : Schema} {c : Config} {p : Parts} (hp : p.Admitted s c) :
    (Schema.encodeBody p.values ++ p.trailer).length = s.bodyLen + s.trailerLen := by
  rw [List.length_append, hp.trailer.length_eq]
  exact congrArg (· + s.trailerLen) (Schema.length_encodeBody hp.values)

/-- Trailers of one length that store the same bytes store the same checksum. -/
theorem Sealed.checksum_unique {s : Schema} {verify : Bool} {covered trailer : Bytes}
    {checksum checksum' : Option UInt16} (h : Sealed s verify covered trailer checksum)
    (h' : Sealed s verify covered trailer checksum') : checksum = checksum' := by
  cases h with
  | absent => cases h' with
    | absent => rfl
  | stored hi lo => cases h' with
    | stored => rfl

namespace Schema

theorem frame_eq_ok_iff {s : Schema} {c : Config} {input message : Bytes} {start : Nat} :
    s.frame c input = .ok (start, message) ↔
      ∃ header left rest, ArrayHeader.Announces s.elementCount header ∧
        left.length = s.bodyLen + s.trailerLen ∧
        (c.decode.allowTrailingBytes = false → rest = []) ∧
        input = header ++ left ++ rest ∧ start = header.length ∧ message = header ++ left := by
  constructor
  · intro h
    obtain ⟨next, hheader, h⟩ := bind_eq_ok_iff.mp h
    obtain ⟨header, tail, hform, hinput, hnext⟩ := ArrayHeader.expectAt_eq_ok_iff.mp hheader
    rw [List.drop_zero] at hinput
    rw [Nat.zero_add] at hnext
    subst hinput hnext
    dsimp only at h
    split at h
    · cases h
    · rename_i hroom
      rw [List.length_append] at hroom
      split at h
      · cases h
      · rename_i hend
        cases h
        refine ⟨header, tail.take (s.bodyLen + s.trailerLen), tail.drop (s.bodyLen + s.trailerLen),
          hform, ?_, ?_, ?_, rfl, ?_⟩
        · rw [List.length_take]
          omega
        · intro hstrict
          simp only [hstrict, List.length_append, Bool.not_false, Bool.and_true,
            decide_eq_true_eq] at hend
          exact List.drop_eq_nil_of_le (by omega)
        · rw [List.append_assoc, List.take_append_drop]
        · rw [Nat.add_assoc, List.take_length_add_append]
  · rintro ⟨header, left, rest, hform, hlen, hrest, rfl, rfl, rfl⟩
    have hheader : ArrayHeader.expectAt (header ++ left ++ rest) 0 s.headerLength =
        .ok header.length := by
      rw [List.append_assoc]
      exact hform.expectAt_append (n := s.headerLength) (left ++ rest)
    have hsize : header.length + s.bodyLen + s.trailerLen = (header ++ left).length := by
      rw [List.length_append, hlen, Nat.add_assoc]
    have hroom : ¬ (header ++ left ++ rest).length < (header ++ left).length := by
      rw [List.length_append]
      omega
    have hend : ¬ (decide ((header ++ left).length < (header ++ left ++ rest).length) &&
        !c.decode.allowTrailingBytes) = true := by
      cases hallow : c.decode.allowTrailingBytes with
      | true => simp
      | false => simp [hrest hallow]
    unfold frame
    rw [hheader]
    simp only [bind, Except.bind, hsize, if_neg hroom, if_neg hend, List.take_left, pure,
      Except.pure]

theorem contents_eq_ok_iff_of_absent {s : Schema} {verify : Bool} {header left : Bytes}
    {d : Decoded} (hc : s.appendChecksum = false) (hlen : left.length = s.bodyLen + s.trailerLen) :
    s.contents verify header.length (header ++ left) = .ok d ↔
      ∃ values, List.Forall₂ Field.Holds s.fields values ∧ left = encodeBody values ∧
        d = ⟨s, decodedFields s.fields values, none, (header ++ left).length⟩ := by
  have hsize : s.trailerLen = 0 := by rw [trailerLen, hc, if_neg Bool.false_ne_true]
  have hnext : header.length + (s.fields.map Field.encodedLen).sum = (header ++ left).length := by
    rw [List.length_append, hlen, hsize]
    rfl
  unfold contents
  simp only [hc, Bool.false_and, Bool.false_eq_true, if_false, List.drop_left, bind_eq_ok_iff,
    Prod.exists, readFields_eq_ok_iff, pure, Except.pure, Except.ok.injEq, Prod.mk.injEq]
  constructor
  · rintro ⟨_, rfl, _, _, tail, ⟨values, hvalues, rfl, rfl, rfl⟩, _, _, ⟨rfl, rfl⟩, h⟩
    rw [if_pos hnext] at h
    cases h
    have htail : tail = [] := by
      rw [List.length_append, length_encodeBody hvalues, hsize] at hlen
      exact List.length_eq_zero_iff.mp (Nat.add_left_cancel hlen)
    rw [htail, List.append_nil] at hnext ⊢
    exact ⟨values, hvalues, rfl, by rw [hnext]⟩
  · rintro ⟨values, hvalues, rfl, rfl⟩
    refine ⟨none, rfl, _, _, [], ⟨values, hvalues, rfl, rfl, (List.append_nil _).symm⟩, _, _,
      ⟨rfl, rfl⟩, ?_⟩
    rw [if_pos hnext, hnext]

/-- The fields and the trailer of a message, whose checksum was found to be `verified` if it was
compared before. -/
def readSealed (s : Schema) (start : Nat) (message : Bytes) (verified : Option UInt16) :
    Except WireError Decoded := do
  let (fields, next, rest) ← readFields s.fields start (message.drop start)
  let (stored, _) ← Kind.read .uint16 next rest
  if next + Trailer.len = message.length then
    return ⟨s, fields, some (verified.getD stored), next + Trailer.len⟩
  else throw (.trailingBytes (next + Trailer.len) message.length)

theorem contents_of_present {s : Schema} {verify : Bool} {start : Nat} {message : Bytes}
    (hc : s.appendChecksum = true) :
    s.contents verify start message =
      if verify = true then do
        let verified ← Trailer.check message
        s.readSealed start message (some verified)
      else s.readSealed start message none := by
  unfold contents readSealed
  rw [hc]
  cases verify with
  | false => rfl
  | true => cases Trailer.check message <;> rfl

theorem readSealed_eq_ok_iff {s : Schema} {header left : Bytes} {verified : Option UInt16}
    {d : Decoded} (hc : s.appendChecksum = true) (hlen : left.length = s.bodyLen + s.trailerLen) :
    s.readSealed header.length (header ++ left) verified = .ok d ↔
      ∃ values stored, List.Forall₂ Field.Holds s.fields values ∧
        left = encodeBody values ++ Trailer.encode stored ∧
        d = ⟨s, decodedFields s.fields values, some (verified.getD stored),
          (header ++ left).length⟩ := by
  have hsize : s.trailerLen = Trailer.len := by rw [trailerLen, hc, if_pos rfl]
  have hnext : header.length + (s.fields.map Field.encodedLen).sum + Trailer.len =
      (header ++ left).length := by
    rw [List.length_append, hlen, hsize, Nat.add_assoc]
    rfl
  constructor
  · intro h
    obtain ⟨⟨_, next, rest⟩, hfields, h⟩ := bind_eq_ok_iff.mp h
    rw [List.drop_left] at hfields
    obtain ⟨values, hvalues, rfl, rfl, rfl⟩ := readFields_eq_ok_iff.mp hfields
    obtain ⟨⟨stored, tail⟩, hstored, h⟩ := bind_eq_ok_iff.mp h
    obtain rfl := Kind.read_eq_ok_iff.mp hstored
    dsimp only at h
    rw [if_pos hnext] at h
    cases h
    have htail : tail = [] := by
      have hwidth : (Kind.encode .uint16 stored).length = Trailer.len :=
        Trailer.length_encode stored
      rw [List.length_append, List.length_append, hwidth, hsize,
        show (encodeBody values).length = s.bodyLen from length_encodeBody hvalues] at hlen
      exact List.length_eq_zero_iff.mp (by omega)
    rw [htail, List.append_nil] at hnext ⊢
    exact ⟨values, stored, hvalues, rfl, by rw [hnext]⟩
  · rintro ⟨values, stored, hvalues, rfl, rfl⟩
    refine bind_eq_ok_iff.mpr ⟨_, readFields_eq_ok_iff.mpr
      ⟨values, hvalues, rfl, rfl, List.drop_left⟩, ?_⟩
    refine bind_eq_ok_iff.mpr ⟨(stored, []), Kind.read_eq_ok_iff.mpr (List.append_nil _).symm, ?_⟩
    dsimp only
    rw [if_pos hnext, hnext]
    rfl

theorem contents_eq_ok_iff {s : Schema} {verify : Bool} {header left : Bytes} {d : Decoded}
    (hlen : left.length = s.bodyLen + s.trailerLen) :
    s.contents verify header.length (header ++ left) = .ok d ↔
      ∃ values trailer checksum, List.Forall₂ Field.Holds s.fields values ∧
        Sealed s verify (header ++ encodeBody values) trailer checksum ∧
        left = encodeBody values ++ trailer ∧
        d = ⟨s, decodedFields s.fields values, checksum, (header ++ left).length⟩ := by
  cases hc : s.appendChecksum with
  | false =>
    rw [contents_eq_ok_iff_of_absent hc hlen]
    constructor
    · rintro ⟨values, hvalues, rfl, rfl⟩
      exact ⟨values, [], none, hvalues, .absent hc, (List.append_nil _).symm, rfl⟩
    · rintro ⟨values, trailer, checksum, hvalues, hsealed, rfl, rfl⟩
      obtain ⟨rfl, rfl⟩ := (Sealed.iff_of_absent hc).mp hsealed
      exact ⟨values, hvalues, List.append_nil _, rfl⟩
  | true =>
    rw [contents_of_present hc]
    constructor
    · intro h
      cases verify with
      | false =>
        rw [if_neg Bool.false_ne_true, readSealed_eq_ok_iff hc hlen] at h
        obtain ⟨values, stored, hvalues, rfl, rfl⟩ := h
        refine ⟨values, Trailer.encode stored, some stored, hvalues, ?_, rfl, rfl⟩
        exact (Sealed.iff_of_present hc).mpr ⟨stored, rfl, rfl, fun hv => nomatch hv⟩
      | true =>
        obtain ⟨verified, hcheck, h⟩ := bind_eq_ok_iff.mp h
        obtain ⟨values, stored, hvalues, rfl, rfl⟩ := (readSealed_eq_ok_iff hc hlen).mp h
        obtain ⟨covered, hmessage, hverified⟩ := Trailer.check_eq_ok_iff.mp hcheck
        -- both readings of the message end in three bytes, so they agree on them
        rw [← List.append_assoc] at hmessage
        obtain ⟨hcovered, hstored⟩ := List.append_inj' hmessage
          (by rw [Trailer.length_encode, Trailer.length_encode])
        obtain rfl := Trailer.encode_injective hstored
        refine ⟨values, Trailer.encode stored, some stored, hvalues, ?_, rfl, rfl⟩
        exact (Sealed.iff_of_present hc).mpr ⟨stored, rfl, rfl, fun _ => hcovered ▸ hverified⟩
    · rintro ⟨values, trailer, checksum, hvalues, hsealed, rfl, rfl⟩
      obtain ⟨stored, rfl, rfl, hstored⟩ := (Sealed.iff_of_present hc).mp hsealed
      cases verify with
      | false =>
        rw [if_neg Bool.false_ne_true, readSealed_eq_ok_iff hc hlen]
        exact ⟨values, stored, hvalues, rfl, rfl⟩
      | true =>
        refine bind_eq_ok_iff.mpr ⟨stored, Trailer.check_eq_ok_iff.mpr ⟨_, ?_, hstored rfl⟩, ?_⟩
        · rw [List.append_assoc]
        · exact (readSealed_eq_ok_iff hc hlen).mpr ⟨values, stored, hvalues, rfl, rfl⟩

/-- Parsing finds an allowed cut within the limit, and reads its result off from it. -/
theorem parse_eq_ok_iff {s : Schema} {c : Config} {input : Bytes} {d : Decoded} :
    s.parse c input = .ok d ↔
      c.Permits input.length ∧
        ∃ p : Parts, p.Admitted s c ∧ p.bytes = input ∧ p.decoded s = d := by
  constructor
  · intro h
    obtain ⟨_, hlimit, h⟩ := bind_eq_ok_iff.mp h
    obtain ⟨⟨start, message⟩, hframe, h⟩ := bind_eq_ok_iff.mp h
    obtain ⟨header, left, rest, hheader, hlen, hrest, rfl, rfl, rfl⟩ := frame_eq_ok_iff.mp hframe
    obtain ⟨values, trailer, checksum, hvalues, hsealed, rfl, rfl⟩ :=
      (contents_eq_ok_iff hlen).mp h
    refine ⟨checkLimit_eq_ok_iff.mp hlimit, ⟨header, values, trailer, checksum, rest⟩,
      ⟨hheader, hvalues, hsealed, hrest⟩, ?_, ?_⟩
    · simp only [Parts.bytes, Parts.message, Parts.covered, List.append_assoc]
    · simp only [Parts.decoded, Parts.message, Parts.covered, List.append_assoc]
  · rintro ⟨hlimit, p, hp, rfl, rfl⟩
    have hlen := hp.length_body
    refine bind_eq_ok_iff.mpr ⟨(), checkLimit_eq_ok_iff.mpr hlimit, ?_⟩
    refine bind_eq_ok_iff.mpr ⟨(_, _), frame_eq_ok_iff.mpr
      ⟨p.header, _, p.rest, hp.header, hlen, hp.rest, ?_, rfl, rfl⟩, ?_⟩
    · simp only [Parts.bytes, Parts.message, Parts.covered, List.append_assoc]
    · refine (contents_eq_ok_iff hlen).mpr
        ⟨p.values, p.trailer, p.checksum, hp.values, hp.trailer, rfl, ?_⟩
      simp only [Parts.decoded, Parts.message, Parts.covered, List.append_assoc]

end Schema

theorem Parts.Admitted.verify_message {s : Schema} {c : Config} {p : Parts} (hp : p.Admitted s c)
    (hs : s.appendChecksum = true) (hverify : c.decode.verifyChecksum = true) :
    Trailer.verify p.message = true := by
  obtain ⟨stored, htrailer, -, hstored⟩ := (Sealed.iff_of_present hs).mp hp.trailer
  refine Trailer.verify_eq_true_iff.mpr ⟨p.covered, ?_⟩
  rw [← hstored hverify, ← htrailer]
  rfl

/-- A byte string has at most one allowed cut: each part is found by reading from the front. -/
theorem Parts.Admitted.unique {s : Schema} {c : Config} {p q : Parts} (hp : p.Admitted s c)
    (hq : q.Admitted s c) (h : p.bytes = q.bytes) : p = q := by
  obtain ⟨header, values, trailer, checksum, rest⟩ := p
  obtain ⟨header', values', trailer', checksum', rest'⟩ := q
  simp only [bytes, message, covered, List.append_assoc] at h
  obtain ⟨-, rfl⟩ := ArrayHeader.Announces.unique (n := s.headerLength) (m := s.headerLength)
    hp.header hq.header h
  obtain ⟨rfl, htail⟩ := Schema.encodeBody_unique hp.values hq.values (List.append_cancel_left h)
  obtain ⟨rfl, rfl⟩ := List.append_inj htail
    (by rw [hp.trailer.length_eq, hq.trailer.length_eq])
  obtain rfl := hp.trailer.checksum_unique hq.trailer
  rfl

/-- Parsing accepts exactly the inputs within the limit that have an allowed cut. The cut of an
accepted input is unique, and fields, checksum and length of the result are its own. -/
theorem Schema.parse_accepts_grammar (s : Schema) (c : Config) (input : Bytes) :
    ((∃ d, s.parse c input = .ok d) ↔
      c.Permits input.length ∧ ∃ p : Parts, p.Admitted s c ∧ p.bytes = input) ∧
    ∀ d, s.parse c input = .ok d →
      ∃ p : Parts, p.Admitted s c ∧ p.bytes = input ∧ p.decoded s = d ∧
        ∀ q : Parts, q.Admitted s c → q.bytes = input → q = p := by
  constructor
  · constructor
    · rintro ⟨d, h⟩
      obtain ⟨hlimit, p, hp, hbytes, -⟩ := parse_eq_ok_iff.mp h
      exact ⟨hlimit, p, hp, hbytes⟩
    · rintro ⟨hlimit, p, hp, hbytes⟩
      exact ⟨p.decoded s, parse_eq_ok_iff.mpr ⟨hlimit, p, hp, hbytes, rfl⟩⟩
  · intro d h
    obtain ⟨-, p, hp, hbytes, hdecoded⟩ := parse_eq_ok_iff.mp h
    refine ⟨p, hp, hbytes, hdecoded, ?_⟩
    intro q hq hq'
    exact hq.unique hp (hq'.trans hbytes.symm)

end TaggedWire
