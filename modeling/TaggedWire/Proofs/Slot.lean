import TaggedWire.FixedBuffer

/-!
Replaced ranges of a buffer, byte by byte: inside the range stands what was written, outside it what
was there before. Ranges that do not overlap can be replaced in either order, and a run that is
written element by element is one range.
-/
namespace TaggedWire

namespace Slot

theorem splice_nil (buf : Bytes) (offset : Nat) : splice buf offset [] = buf := by
  rw [splice, List.append_nil, List.length_nil, Nat.add_zero, List.take_append_drop]

/-- Right behind a known front, a range is replaced by appending to the front. -/
theorem splice_append_left (front rest new : Bytes) :
    splice (front ++ rest) front.length new = front ++ new ++ rest.drop new.length := by
  rw [splice, List.take_left, List.drop_length_add_append]

theorem getElem?_splice {buf new : Bytes} {offset : Nat} (h : offset + new.length ≤ buf.length)
    (i : Nat) :
    (splice buf offset new)[i]? =
      if offset ≤ i ∧ i < offset + new.length then new[i - offset]? else buf[i]? := by
  have hfront : (buf.take offset).length = offset := by
    rw [List.length_take]
    omega
  rw [splice, List.append_assoc, List.getElem?_append, hfront]
  rcases Nat.lt_or_ge i offset with hbefore | hafter
  · rw [if_pos hbefore, if_neg (fun hin => Nat.not_le.mpr hbefore hin.1),
      List.getElem?_take_of_lt hbefore]
  · rw [if_neg (Nat.not_lt.mpr hafter), List.getElem?_append]
    rcases Nat.lt_or_ge i (offset + new.length) with hin | hbehind
    · rw [if_pos (by omega), if_pos ⟨hafter, hin⟩]
    · rw [if_neg (by omega), if_neg (fun hin => Nat.not_lt.mpr hbehind hin.2), List.getElem?_drop]
      congr 1
      omega

/-- Two ranges that follow each other are one range. -/
theorem splice_splice {buf a b : Bytes} {offset : Nat}
    (h : offset + a.length + b.length ≤ buf.length) :
    splice (splice buf offset a) (offset + a.length) b = splice buf offset (a ++ b) := by
  have ha : offset + a.length ≤ buf.length := by omega
  apply List.ext_getElem?
  intro i
  rw [getElem?_splice (by rw [length_splice ha]; exact h), getElem?_splice ha,
    getElem?_splice (by rw [List.length_append]; omega), List.length_append, List.getElem?_append]
  by_cases hb : offset + a.length ≤ i ∧ i < offset + a.length + b.length
  · rw [if_pos hb, if_pos (by omega), if_neg (by omega)]
    congr 1
    omega
  · rw [if_neg hb]
    by_cases hin : offset ≤ i ∧ i < offset + a.length
    · rw [if_pos hin, if_pos (by omega), if_pos (by omega)]
    · rw [if_neg hin, if_neg (by omega)]

theorem splice_comm {buf a b : Bytes} {i j : Nat} (ha : i + a.length ≤ buf.length)
    (hb : j + b.length ≤ buf.length) (hapart : i + a.length ≤ j ∨ j + b.length ≤ i) :
    splice (splice buf i a) j b = splice (splice buf j b) i a := by
  apply List.ext_getElem?
  intro m
  rw [getElem?_splice (by rw [length_splice ha]; exact hb), getElem?_splice ha,
    getElem?_splice (by rw [length_splice hb]; exact ha), getElem?_splice hb]
  by_cases hina : i ≤ m ∧ m < i + a.length
  · rw [if_pos hina, if_pos hina, if_neg (by omega)]
  · rw [if_neg hina, if_neg hina]

end Slot

namespace FixedBuffer

variable {n : Nat}

theorem ext_bytes {b c : FixedBuffer n} (h : b.bytes = c.bytes) : b = c := by
  cases b
  cases c
  cases h
  rfl

/-- A run that is written element by element replaces one range. -/
theorem putMany_eq (b : FixedBuffer n) (offset : Nat) (k : Kind) (vs : List k.Native)
    (h : offset + (Run.bytes k vs).length ≤ n) :
    b.putMany offset k vs h =
      (b.splice offset (Run.bytes k vs) h, offset + (Run.bytes k vs).length) := by
  induction vs generalizing b offset with
  | nil =>
    refine Prod.ext (ext_bytes ?_) rfl
    exact (Slot.splice_nil b.bytes offset).symm
  | cons v vs ih =>
    have hsplit : offset + (k.encode v).length + (Run.bytes k vs).length ≤ b.bytes.length := by
      rw [Run.bytes_cons, List.length_append, ← Nat.add_assoc] at h
      rwa [b.length_eq]
    rw [putMany]
    refine (ih _ _ _).trans (Prod.ext (ext_bytes ?_) ?_)
    · have hjoin := Slot.splice_splice hsplit
      rw [Kind.length_encode, ← Run.bytes_cons] at hjoin
      exact hjoin
    · dsimp only [put]
      rw [Run.bytes_cons, List.length_append, Kind.length_encode, Nat.add_assoc]

end FixedBuffer

end TaggedWire
