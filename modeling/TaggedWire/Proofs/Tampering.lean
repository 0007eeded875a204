import TaggedWire.Proofs.Completion
import TaggedWire.Proofs.Parity
import TaggedWire.Proofs.RoundTrip

/-!
Parsing of corrupted messages. Where the trailer is looked for depends on the header, which may be
corrupted too; but a header of the right count is at least as long as the one that was written, so
no other place is left for the trailer than the end of the input. Main statement: an error that the
checksum finds is never parsed, whether or not trailing bytes are accepted.
-/
namespace TaggedWire

theorem Parts.Admitted.encodedSize_le {s : Schema} {c : Config} {p : Parts}
    (hp : p.Admitted s c) : s.encodedSize ≤ p.message.length := by
  have hheader : ArrayHeader.encodedLen s.elementCount ≤ p.header.length := by
    have hval := ArrayHeader.encodedLen_val s.headerLength
    have hge := ArrayHeader.Announces.length_ge (n := s.headerLength) hp.header
    exact hval.trans_le hge
  have hbody : (Schema.encodeBody p.values).length = s.bodyLen := Schema.length_encodeBody hp.values
  rw [message, covered, List.length_append, List.length_append, hbody, hp.trailer.length_eq,
    Schema.encodedSize]
  omega

namespace Schema

/-- An input of the size of a message with the shortest header is parsed as a whole or not at all,
and its trailer is the one at its end. -/
theorem verify_of_parse {s : Schema} {c : Config} {input : Bytes} {d : Decoded}
    (hs : s.appendChecksum = true) (hverify : c.decode.verifyChecksum = true)
    (hsize : input.length = s.encodedSize) (hparse : s.parse c input = .ok d) :
    Trailer.verify input = true := by
  obtain ⟨-, p, hp, rfl, -⟩ := parse_eq_ok_iff.mp hparse
  have hle := hp.encodedSize_le
  rw [Parts.bytes, List.length_append] at hsize
  have hrest : p.rest = [] := List.length_eq_zero_iff.mp (by omega)
  rw [Parts.bytes, hrest, List.append_nil]
  exact hp.verify_message hs hverify

/-- A message that a complete builder has written, with an error within sixteen consecutive bits or
of odd weight added to it, is refused by every configuration that compares checksums. -/
theorem parse_corrupt_of_build (s : Schema) (c : Config) (ops : List Builder.Op)
    (hs : s.appendChecksum = true) (hverify : c.decode.verifyChecksum = true)
    (hcomplete : ((Builder.new s).run ops).isComplete = true) :
    ∃ built, ((Builder.new s).run ops).build = .ok built ∧
      built.bytes.length = s.encodedSize ∧
      ∀ error : Bytes, error.length = built.bytes.length →
        (true ∈ Checksum.bits error ∧ Checksum.Within 16 (Checksum.bits error) ∨
          Odd ((Checksum.bits error).count true)) →
        ∃ e, s.parse c (corrupt built.bytes error) = .error e := by
  obtain ⟨given, -, hgiven, hbuild⟩ := Builder.build_of_complete hcomplete
  have hsize := Parts.length_canonical hgiven
  refine ⟨_, hbuild, hsize, ?_⟩
  intro error hlen herror
  dsimp only at hlen ⊢
  cases hparse : s.parse c (corrupt (Parts.canonical s given).message error) with
  | error e => exact ⟨e, rfl⟩
  | ok d =>
    -- an accepted input of this size is verified as a whole, so the error has had no effect
    have hwritten : Trailer.verify (Parts.canonical s given).message = true :=
      (Parts.canonical_admitted (c := c) hgiven).verify_message hs hverify
    have hsame : (corrupt (Parts.canonical s given).message error).length = s.encodedSize := by
      rw [corrupt, List.length_zipWith, hlen, Nat.min_self, hsize]
    obtain ⟨front, hi, lo, rfl, hnone⟩ :=
      (Trailer.verify_corrupt_iff hwritten hlen).mp (verify_of_parse hs hverify hsame hparse)
    rcases herror with ⟨hset, hburst⟩ | hodd
    · cases Checksum.clear_of_no_effect hburst hnone true hset
    · exact absurd hodd (Checksum.not_odd_of_no_effect hnone)

end Schema

/-- Three flipped bits, the first of them in the header. -/
theorem parse_corrupt_of_build_reading :
    ∃ built e,
      ((Builder.new reading).run
        [.set "on" .bool false, .set "off" .bool true, .setValues "id" [.uint16 7],
          .setMany "level" .float32 [⟨0x7FA00001⟩, ⟨0x80000000⟩], .set "on" .bool true]).build =
        .ok built ∧
      reading.parse ⟨none, ⟨true, true⟩⟩
        (corrupt built.bytes [0x40, 0, 0, 0, 0, 0x01, 0, 0, 0, 0, 0, 0, 0, 0, 0, 0x08, 0, 0]) =
        .error e := by
  obtain ⟨built, hbuild, hlen, hreject⟩ := reading.parse_corrupt_of_build ⟨none, ⟨true, true⟩⟩
    [.set "on" .bool false, .set "off" .bool true, .setValues "id" [.uint16 7],
      .setMany "level" .float32 [⟨0x7FA00001⟩, ⟨0x80000000⟩], .set "on" .bool true]
    rfl rfl (by decide)
  obtain ⟨e, he⟩ := hreject [0x40, 0, 0, 0, 0, 0x01, 0, 0, 0, 0, 0, 0, 0, 0, 0, 0x08, 0, 0]
    hlen.symm (.inr (by decide))
  exact ⟨built, e, hbuild, he⟩

end TaggedWire
