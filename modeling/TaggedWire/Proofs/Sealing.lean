import TaggedWire.Proofs.Slot
import TaggedWire.Proofs.Trailer
import TaggedWire.Proofs.Writing

/-!
Sealing: a trailer is put behind bytes by appending it, by overwriting the end of a buffer, by
sealing a fixed buffer, or by a writer for the part of its bytes that starts at some position. Main
statement: these are one operation on the bytes that are covered, and what it produces is exactly
what passes the check.
-/
namespace TaggedWire

namespace Trailer

theorem stamp_of_short {buf : Bytes} (h : buf.length < len) :
    stamp buf = (buf, .error (.bufferTooSmall len buf.length "integrity trailer")) := by
  rw [stamp, if_pos h]

/-- Whatever stands in the last three bytes is replaced by the trailer of what stands before. -/
theorem stamp_append {covered room : Bytes} (h : room.length = len) :
    stamp (covered ++ room) = ((push covered).1, .ok (push covered).2) := by
  have hcut : (covered ++ room).length - len = covered.length := by
    rw [List.length_append, h, Nat.add_sub_cancel]
  have hroom : ¬ (covered ++ room).length < len := by
    rw [List.length_append, h]
    exact Nat.not_lt.mpr (Nat.le_add_left _ _)
  have hdrop : room.drop len = [] := by rw [← h, List.drop_length]
  simp only [stamp, if_neg hroom, hcut, List.take_left, Slot.splice_append_left, length_encode,
    hdrop, List.append_nil, push]

/-- A buffer with room for a trailer is its covered bytes and three more. -/
theorem exists_room {buf : Bytes} (h : len ≤ buf.length) :
    ∃ room, buf = buf.take (buf.length - len) ++ room ∧ room.length = len := by
  refine ⟨buf.drop (buf.length - len), (List.take_append_drop _ _).symm, ?_⟩
  rw [List.length_drop]
  omega

theorem stamp_eq_push {buf : Bytes} (h : len ≤ buf.length) :
    stamp buf =
      ((push (buf.take (buf.length - len))).1, .ok (push (buf.take (buf.length - len))).2) := by
  obtain ⟨room, hbuf, hroom⟩ := exists_room h
  conv_lhs => rw [hbuf]
  exact stamp_append hroom

theorem stamp_push (covered : Bytes) :
    stamp (push covered).1 = ((push covered).1, .ok (push covered).2) :=
  stamp_append (length_encode _)

theorem length_push (covered : Bytes) : (push covered).1.length = covered.length + len := by
  rw [push, List.length_append, length_encode]

theorem take_push (covered : Bytes) :
    (push covered).1.take ((push covered).1.length - len) = covered := by
  rw [length_push, Nat.add_sub_cancel]
  exact List.take_left

theorem check_eq_ok_iff_push {buf : Bytes} {c : UInt16} :
    check buf = .ok c ↔ push (buf.take (buf.length - len)) = (buf, c) := by
  rw [check_eq_ok_iff]
  constructor
  · rintro ⟨covered, rfl, rfl⟩
    have htake := take_push covered
    dsimp only [push] at htake
    rw [htake]
    rfl
  · intro h
    obtain ⟨hbuf, hc⟩ := Prod.mk.inj h
    exact ⟨buf.take (buf.length - len), hc ▸ hbuf.symm, hc.symm⟩

end Trailer

theorem FixedBuffer.stamp_eq {n : Nat} (b : FixedBuffer n) (h : Trailer.len < n) :
    Trailer.stamp b.bytes = ((b.stamp h).1.bytes, .ok (b.stamp h).2) := by
  have hroom : ¬ b.bytes.length < Trailer.len := by
    rw [b.length_eq]
    exact Nat.not_lt.mpr (Nat.le_of_lt h)
  rw [Trailer.stamp, if_neg hroom, b.length_eq]
  rfl

/-- A growing writer seals what was written from a position on and keeps what stands before it. -/
theorem Writer.step_putTrailer_growing {written : Bytes} {start : Nat}
    (h : start ≤ written.length) :
    (growing written).step (putTrailer start) =
      (growing (written.take start ++ (Trailer.push (written.drop start)).1),
        .ok (Trailer.push (written.drop start)).2) := by
  rw [step, outcome, putTrailer_of_fits h (fits_growing _ _)]
  simp only [extend, growing, Trailer.push, ← List.append_assoc, List.take_append_drop,
    Option.map_none]

namespace Trailer

/-- All ways to seal bytes are one, and the check accepts exactly what they produce. The bytes `b`
stand for a buffer that is checked or sealed at its end, and for what a growing writer holds. -/
theorem sealing_agrees (b : Bytes) :
    let covered := b.take (b.length - len)
    (∀ c, check b = .ok c ↔ b = covered ++ encode c ∧ c = Checksum.ofBytes covered) ∧
    (∀ c, check b = .ok c ↔ push covered = (b, c)) ∧
    (verify b = true ↔ ∃ c, check b = .ok c) ∧
    (len ≤ b.length →
      (stamp b).1.length = b.length ∧ (stamp b).1.take (b.length - len) = covered ∧
      stamp b = ((push covered).1, .ok (push covered).2) ∧ stamp (stamp b).1 = stamp b) ∧
    (b.length < len →
      stamp b = (b, .error (.bufferTooSmall len b.length "integrity trailer"))) ∧
    (∀ (n : Nat) (f : FixedBuffer n) (h : len < n), f.bytes = b →
      ((f.stamp h).1.bytes, .ok (f.stamp h).2) = stamp b) ∧
    ∀ start room, start ≤ b.length → room.length = len →
      (Writer.growing b).step (Writer.putTrailer start) =
        (Writer.growing (b.take start ++ (stamp (b.drop start ++ room)).1),
          (stamp (b.drop start ++ room)).2) := by
  intro covered
  refine ⟨?_, fun c => check_eq_ok_iff_push, ?_, ?_, stamp_of_short, ?_, ?_⟩
  · intro c
    rw [check_eq_ok_iff_push, push, Prod.mk.injEq]
    constructor
    · rintro ⟨hb, rfl⟩
      exact ⟨hb.symm, rfl⟩
    · rintro ⟨hb, hc⟩
      exact ⟨hc ▸ hb.symm, hc.symm⟩
  · rw [verify]
    cases check b <;> simp [Except.isOk, Except.toBool]
  · intro h
    have hstamp : stamp b = ((push covered).1, .ok (push covered).2) := stamp_eq_push h
    have hlen : (push covered).1.length = b.length := by
      rw [length_push, List.length_take]
      omega
    rw [hstamp]
    refine ⟨hlen, ?_, rfl, stamp_push covered⟩
    rw [← hlen]
    exact take_push covered
  · rintro n f h rfl
    exact (f.stamp_eq h).symm
  · intro start room hstart hroom
    rw [Writer.step_putTrailer_growing hstart, stamp_append hroom]

end Trailer

end TaggedWire
