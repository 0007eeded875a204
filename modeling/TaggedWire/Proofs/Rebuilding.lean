import TaggedWire.Message.Rebuild
import TaggedWire.Proofs.Tampering

/-!
Rebuilding of parsed messages. What a parser returns is enough to write the message again, and what
is written then is its canonical form: a longer header becomes the shortest one, a trailer that was
not compared is computed anew, trailing bytes are gone, and the bytes of the fields stay as they
are.
-/
namespace TaggedWire

/-- A decoded message asks for each field of its schema once. -/
theorem Parts.map_request_assignments (s : Schema) (p : Parts) :
    (p.decoded s).assignments.map Builder.Op.request = (s.fields.map Field.name).zip p.values := by
  rw [Decoded.assignments, List.map_map, decoded, Schema.decodedFields, List.map_zipWith,
    List.zip, List.zipWith_map_left]
  rfl

namespace Parts.Admitted

variable {s : Schema} {c : Config} {p : Parts}

theorem expectAt_header (hp : p.Admitted s c) :
    ArrayHeader.expectAt p.bytes 0 s.headerLength = .ok p.header.length := by
  rw [bytes, message, covered, List.append_assoc, List.append_assoc]
  exact ArrayHeader.Announces.expectAt_append (n := s.headerLength) hp.header _

/-- The fields lie between the header and the trailer. -/
theorem body_eq (hp : p.Admitted s c) :
    (p.bytes.take (p.message.length - s.trailerLen)).drop p.header.length =
      Schema.encodeBody p.values := by
  have hend : p.message.length - s.trailerLen = p.covered.length := by
    rw [message, List.length_append, hp.trailer.length_eq, Nat.add_sub_cancel]
  rw [hend, bytes, message, List.append_assoc, List.take_left, covered, List.drop_left]

/-- A message that has the shortest header and the checksum of its own bytes is canonical. -/
theorem canonical_message (hp : p.Admitted s c) (hheader : p.header = s.headerLength.encode)
    (hverify : s.appendChecksum = true → c.decode.verifyChecksum = true) :
    (canonical s p.values).message = p.message := by
  have hcovered : (canonical s p.values).covered = p.covered := by
    rw [covered_canonical, covered, hheader]
  cases hs : s.appendChecksum with
  | false =>
    obtain ⟨htrailer, -⟩ := (Sealed.iff_of_absent hs).mp hp.trailer
    rw [(canonical_of_absent p.values hs).1, hcovered, message, htrailer, List.append_nil]
  | true =>
    obtain ⟨stored, htrailer, -, hstored⟩ := (Sealed.iff_of_present hs).mp hp.trailer
    rw [(canonical_of_present p.values hs).1, hcovered, message, htrailer, hstored (hverify hs)]

end Parts.Admitted

/-- Every field of a parsed message can be set by its name on a fresh builder, in any order, and the
builder then writes the canonical form of the message: the shortest header, the bytes between
header and trailer, and a new trailer. That is the message itself if it was canonical. -/
theorem Schema.rebuild_of_parse (s : Schema) (c : Config) (input : Bytes) (d : Decoded)
    (hparse : s.parse c input = .ok d) :
    ∃ start body b built,
      ArrayHeader.expectAt input 0 s.headerLength = .ok start ∧
      body = (input.take (d.len - s.trailerLen)).drop start ∧
      Builder.ofDecoded d = .ok b ∧
      (∀ ops : List Builder.Op, ops.Perm d.assignments → (Builder.new s).applyAll ops = .ok b) ∧
      b.build = .ok built ∧
      built.bytes =
        (if s.appendChecksum then (Trailer.push (s.headerLength.encode ++ body)).1
          else s.headerLength.encode ++ body) ∧
      (input.take start = s.headerLength.encode →
        (s.appendChecksum = true → c.decode.verifyChecksum = true) →
        built.bytes = input.take d.len) := by
  obtain ⟨-, p, hp, rfl, rfl⟩ := parse_eq_ok_iff.mp hparse
  have hset : ∀ ops : List Builder.Op, ops.Perm (p.decoded s).assignments →
      (Builder.new s).applyAll ops = .ok ⟨s, p.values.map some⟩ := by
    intro ops hops
    refine Builder.applyAll_of_perm hp.values ?_
    rw [← p.map_request_assignments s]
    exact hops.map _
  refine ⟨p.header.length, _, ⟨s, p.values.map some⟩, _, hp.expectAt_header, rfl,
    hset _ (List.Perm.refl _), hset, Builder.build_of_values rfl hp.values, ?_, ?_⟩
  · rw [Parts.decoded, hp.body_eq]
    cases hs : s.appendChecksum with
    | false =>
      rw [(Parts.canonical_of_absent p.values hs).1, if_neg Bool.false_ne_true]
      rfl
    | true =>
      rw [(Parts.canonical_of_present p.values hs).1, if_pos rfl]
      rfl
  · intro hshortest hverify
    rw [Parts.bytes, Parts.message, Parts.covered, List.append_assoc, List.append_assoc,
      List.take_left] at hshortest
    rw [Parts.decoded, Parts.bytes, List.take_left]
    exact hp.canonical_message hshortest hverify

/-- A message with a longer header than needed, a trailer of zeros that nobody compares, and a byte
after its end. -/
theorem rebuild_of_parse_reading :
    ∃ b built,
      Builder.ofDecoded
          ⟨reading, List.zipWith DecodedField.mk reading.fields readingValues, some 0, 20⟩ = .ok b ∧
      b.build = .ok built ∧
      built.bytes = (Trailer.push
        [0x94, 0xCD, 0x00, 0x07, 0xCA, 0x7F, 0xA0, 0x00, 0x01, 0xCA, 0x80, 0x00, 0x00, 0x00,
          0xC3]).1 := by
  obtain ⟨start, body, b, built, hstart, hbody, hset, -, hbuild, hbytes, -⟩ :=
    reading.rebuild_of_parse ⟨none, ⟨false, true⟩⟩
      [0xDC, 0x00, 0x04, 0xCD, 0x00, 0x07, 0xCA, 0x7F, 0xA0, 0x00, 0x01, 0xCA, 0x80, 0x00, 0x00,
        0x00, 0xC3, 0xCD, 0x00, 0x00, 0xAA]
      ⟨reading, List.zipWith DecodedField.mk reading.fields readingValues, some 0, 20⟩ (by decide)
  obtain rfl : 3 = start := Except.ok.inj (Eq.trans (by decide) hstart)
  subst hbody
  exact ⟨b, built, hset, hbuild, hbytes⟩

end TaggedWire
