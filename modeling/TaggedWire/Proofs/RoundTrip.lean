import TaggedWire.Proofs.Assignment

/-!
Round trips. What a builder writes, a parser of the same schema reads back bit for bit.
-/
namespace TaggedWire

theorem Parts.decoded_canonical {s : Schema} {given : List (List Value)}
    (h : List.Forall₂ Field.Holds s.fields given) :
    (canonical s given).decoded s =
      { schema := s
        fields := List.zipWith DecodedField.mk s.fields given
        checksum :=
          if s.appendChecksum then
            some (Checksum.ofBytes
              ((canonical s given).message.take ((canonical s given).message.length - 3)))
          else none
        len := s.encodedSize } := by
  have hsize := length_canonical h
  cases hc : s.appendChecksum with
  | false =>
    obtain ⟨-, hchecksum⟩ := canonical_of_absent given hc
    rw [decoded, hsize, hchecksum]
    rfl
  | true =>
    obtain ⟨hmessage, hchecksum⟩ := canonical_of_present given hc
    have hcovered :
        (canonical s given).message.length - 3 = (canonical s given).covered.length := by
      rw [hmessage, List.length_append, Trailer.length_encode]
      rfl
    rw [hcovered, hmessage, List.take_left, decoded, hsize, hchecksum]
    rfl

/-- Requests that give every field its values, in any order and through any of the three ways of
giving them, lead to a message of the expected size, and parsing it under any limit that it meets
returns the values. -/
theorem Schema.parse_of_build (s : Schema) (c : Config) (given : List (List Value))
    (ops : List Builder.Op) (hgiven : List.Forall₂ Field.Holds s.fields given)
    (hops : (ops.map Builder.Op.request).Perm ((s.fields.map Field.name).zip given))
    (hlimit : c.Permits s.encodedSize) :
    ∃ b built, (Builder.new s).applyAll ops = .ok b ∧ b.build = .ok built ∧
      built.bytes.length = s.encodedSize ∧
      s.parse c built.bytes = .ok
        { schema := s
          fields := List.zipWith DecodedField.mk s.fields given
          checksum :=
            if s.appendChecksum then
              some (Checksum.ofBytes (built.bytes.take (built.bytes.length - 3)))
            else none
          len := s.encodedSize } := by
  have hsize := Parts.length_canonical hgiven
  refine ⟨_, _, Builder.applyAll_of_perm hgiven hops, Builder.build_of_values rfl hgiven, hsize, ?_⟩
  refine parse_eq_ok_iff.mpr ⟨?_, Parts.canonical s given, Parts.canonical_admitted hgiven,
    Parts.bytes_canonical s given, Parts.decoded_canonical hgiven⟩
  rw [hsize]
  exact hlimit

/-- A schema with a scalar, a run and a flag, and a trailer. -/
def reading : Schema where
  name := "Reading"
  version := 1
  appendChecksum := true
  fields :=
    [⟨"id", .uint16, 1, by decide, by decide, by decide⟩,
      ⟨"level", .float32, 2, by decide, by decide, by decide⟩,
      ⟨"on", .bool, 1, by decide, by decide, by decide⟩]
  nodup := by decide
  elements_pos := by decide
  elements_le := by decide

/-- Values for `reading`, among them a NaN with a payload and a negative zero. -/
def readingValues : List (List Value) :=
  [[.uint16 7], [.float32 ⟨0x7FA00001⟩, .float32 ⟨0x80000000⟩], [.bool true]]

theorem parse_of_build_reading :
    ∃ b built,
      (Builder.new reading).applyAll
        [.set "on" .bool true, .setMany "level" .float32 [⟨0x7FA00001⟩, ⟨0x80000000⟩],
          .setValues "id" [.uint16 7]] = .ok b ∧
      b.build = .ok built ∧ built.bytes.length = 18 ∧
      reading.parse ⟨some 18, ⟨true, true⟩⟩ built.bytes = .ok
        { schema := reading
          fields := List.zipWith DecodedField.mk reading.fields readingValues
          checksum := some (Checksum.ofBytes (built.bytes.take (built.bytes.length - 3)))
          len := 18 } :=
  reading.parse_of_build ⟨some 18, ⟨true, true⟩⟩ readingValues _
    (by decide) (by decide) (by
      intro max hmax
      cases hmax
      decide)

end TaggedWire
