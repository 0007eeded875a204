import Mathlib.Data.List.Induction
import TaggedWire.Proofs.Elementwise
import TaggedWire.Proofs.Inverse
import TaggedWire.Proofs.Layout

/-!
What a fixed buffer recalls. Writes may overlap in any way; each of them replaces the bytes that it
covers and no others, so every byte is that of the last write over it. Main statement: an item that
no later write has touched is read back, and where a read fits into the buffer at all, it fails for
nothing but a tag.
-/
namespace TaggedWire

namespace FixedBuffer

variable {n : Nat}

theorem get_ok_or_refused (b : FixedBuffer n) {offset : Nat} {k : Kind}
    (h : offset + k.encodedLen ≤ n) :
    (∃ v, b.get offset k = .ok v) ∨
      ∃ t, b.bytes[offset]? = some t ∧ k.accepts t = false ∧
        b.get offset k = .error (.tagMismatch offset k.name t) := by
  have hroom : offset + k.encodedLen ≤ b.bytes.length := by rwa [b.length_eq]
  rcases (Place.judges_decodeAt hroom).ok_or_refused with ⟨v, hv, -⟩ | ⟨p, hp, t, hrefused⟩
  · exact .inl ⟨v, hv⟩
  · obtain rfl := List.mem_singleton.mp hp
    exact .inr ⟨t, hrefused⟩

theorem getMany_ok_or_refused (b : FixedBuffer n) {offset count : Nat} {k : Kind}
    (hcount : 0 < count) (h : offset + count * k.encodedLen ≤ n) :
    (∃ vs, b.getMany offset k count = .ok vs ∧ vs.length = count) ∨
      ∃ i < count, ∃ t, b.bytes[offset + i * k.encodedLen]? = some t ∧ k.accepts t = false ∧
        b.getMany offset k count = .error (.tagMismatch (offset + i * k.encodedLen) k.name t) := by
  have hroom : offset + count * k.encodedLen ≤ b.bytes.length := by rwa [b.length_eq]
  have hjudges : Place.Judges b.bytes (places offset (List.replicate count k))
      (b.getMany offset k count) fun vs => vs.length = count := by
    apply (Run.judges_decodeAt (Nat.ne_of_gt hcount) hroom).map
    intro r hr
    exact (Reader.step_takeEach_eq_ok_iff.mp hr).1
  rcases hjudges.ok_or_refused with hok | ⟨p, hp, t, hrefused⟩
  · exact .inl hok
  · obtain ⟨i, hi, rfl⟩ := mem_places_replicate.mp hp
    exact .inr ⟨i, hi, t, hrefused⟩

end FixedBuffer

namespace Layout

variable {n : Nat}

namespace Placement

def Covers (p : Placement n) (i : Nat) : Prop :=
  p.offset ≤ i ∧ i < p.offset + p.item.size

instance (p : Placement n) (i : Nat) : Decidable (p.Covers i) :=
  inferInstanceAs (Decidable (_ ∧ _))

/-- Some of the `size` bytes from `start` on is covered. -/
def Touches (p : Placement n) (start size : Nat) : Prop :=
  ∃ i, (start ≤ i ∧ i < start + size) ∧ p.Covers i

theorem touches_iff {p : Placement n} {start size : Nat} :
    p.Touches start size ↔
      0 < size ∧ p.offset < start + size ∧ start < p.offset + p.item.size := by
  have hpos := p.item.size_pos
  unfold Touches Covers
  constructor
  · rintro ⟨i, hi, hp⟩
    omega
  · rintro ⟨hsize, hbefore, hafter⟩
    rcases Nat.le_total start p.offset with hle | hle
    · exact ⟨p.offset, by omega, by omega⟩
    · exact ⟨start, by omega, by omega⟩

instance (p : Placement n) (start size : Nat) : Decidable (p.Touches start size) :=
  decidable_of_iff _ touches_iff.symm

theorem touches_one_iff {p : Placement n} {i : Nat} : p.Touches i 1 ↔ p.Covers i := by
  rw [touches_iff, Covers]
  omega

/-- One write: the bytes that it covers are its own, and the others are as they were. -/
theorem getElem?_write (p : Placement n) (b : FixedBuffer n) (i : Nat) :
    (p.write b).1.bytes[i]? = if p.Covers i then p.item.bytes[i - p.offset]? else b.bytes[i]? := by
  rw [bytes_write, Slot.getElem?_splice (p.length_bytes_le b), Item.length_bytes]
  rfl

end Placement

/-- The last of the writes that touches one of the `size` bytes from `start` on. -/
def lastTouching (ps : List (Placement n)) (start size : Nat) : Option (Placement n) :=
  ps.reverse.find? fun p => p.Touches start size

theorem lastTouching_concat (ps : List (Placement n)) (p : Placement n) (start size : Nat) :
    lastTouching (ps ++ [p]) start size =
      if p.Touches start size then some p else lastTouching ps start size := by
  rw [lastTouching, List.reverse_concat, List.find?_cons]
  by_cases h : p.Touches start size
  · simp [h]
  · simp [h, lastTouching]

theorem fill_concat (b : FixedBuffer n) (ps : List (Placement n)) (p : Placement n) :
    fill b (ps ++ [p]) = (p.write (fill b ps)).1 := by
  rw [fill, List.foldl_concat]
  rfl

/-- After any writes, a byte is that of the last one over it, if there was one. -/
theorem getElem?_fill (b : FixedBuffer n) (ps : List (Placement n)) (i : Nat) :
    (fill b ps).bytes[i]? =
      (lastTouching ps i 1).elim b.bytes[i]? fun p => p.item.bytes[i - p.offset]? := by
  induction ps using List.reverseRecOn with
  | nil => rfl
  | append_singleton ps p ih =>
    rw [fill_concat, Placement.getElem?_write, lastTouching_concat]
    by_cases h : p.Covers i
    · rw [if_pos h, if_pos (Placement.touches_one_iff.mpr h), Option.elim_some]
    · rw [if_neg h, if_neg (mt Placement.touches_one_iff.mp h), ih]

theorem lastTouching_of_covers {ps : List (Placement n)} {q : Placement n} {start size i : Nat}
    (h : lastTouching ps start size = some q) (hi : start ≤ i ∧ i < start + size)
    (hq : q.Covers i) : lastTouching ps i 1 = some q := by
  induction ps using List.reverseRecOn with
  | nil => cases h
  | append_singleton ps p ih =>
    rw [lastTouching_concat] at h ⊢
    by_cases hp : p.Touches start size
    · rw [if_pos hp, Option.some.injEq] at h
      rw [h, if_pos (Placement.touches_one_iff.mpr hq)]
    · -- a write that spares the range spares each of its bytes
      have hspared : ¬ p.Touches i 1 := fun hone => hp ⟨i, hi, Placement.touches_one_iff.mp hone⟩
      rw [if_neg hp] at h
      rw [if_neg hspared, ih h]

/-- What the last write to its own range has written is still there. -/
theorem exists_tail_of_lastTouching {ps : List (Placement n)} {offset size : Nat} {item : Item}
    {fits : offset + item.size ≤ n} (h : lastTouching ps offset size = some ⟨offset, item, fits⟩)
    (hsize : item.size = size) (b : FixedBuffer n) :
    ∃ tail, (fill b ps).bytes.drop offset = item.bytes ++ tail := by
  subst hsize
  have hne : item.bytes ≠ [] := by
    apply List.ne_nil_of_length_pos
    rw [Item.length_bytes]
    exact item.size_pos
  have hroom : offset + item.bytes.length ≤ (fill b ps).bytes.length := by
    rw [Item.length_bytes, FixedBuffer.length_eq]
    exact fits
  refine (exists_tail_iff hne).mpr ⟨hroom, ?_⟩
  apply List.ext_getElem?
  intro j
  rw [List.getElem?_take, List.getElem?_drop, Item.length_bytes]
  split
  · rename_i hj
    have hrange : offset ≤ offset + j ∧ offset + j < offset + item.size := by omega
    rw [getElem?_fill, lastTouching_of_covers h hrange hrange, Option.elim_some,
      Nat.add_sub_cancel_left]
  · rename_i hj
    rw [← Item.length_bytes, Nat.not_lt] at hj
    rw [List.getElem?_eq_none hj]

/-- Of any writes to a buffer, in any order and over one another, each replaces the bytes that it
covers and leaves the others alone. An element, a run or a header whose range no later write has
touched is read back as it was written. In every buffer, a read that fits has a result or finds a
byte that is no tag of its kind; it is never cut off, and never empty. -/
theorem fill_reads_last_write (n : Nat) :
    (∀ (b : FixedBuffer n) (p : Placement n) (i : Nat),
      (¬ p.Covers i → (p.write b).1.bytes[i]? = b.bytes[i]?) ∧
      (p.Covers i → (p.write b).1.bytes[i]? = p.item.bytes[i - p.offset]?)) ∧
    (∀ (b : FixedBuffer n) (ps : List (Placement n)),
      (∀ i, (fill b ps).bytes[i]? =
        (lastTouching ps i 1).elim b.bytes[i]? fun p => p.item.bytes[i - p.offset]?) ∧
      (∀ k v offset fits,
        lastTouching ps offset k.encodedLen = some ⟨offset, .element k v, fits⟩ →
          (fill b ps).get offset k = .ok v) ∧
      (∀ k vs nonempty offset fits,
        lastTouching ps offset (vs.length * k.encodedLen) =
            some ⟨offset, .run k vs nonempty, fits⟩ →
          (fill b ps).getMany offset k vs.length = .ok vs) ∧
      ∀ count offset fits,
        lastTouching ps offset count.encodedLen = some ⟨offset, .header count, fits⟩ →
          (fill b ps).expectArrayHeader offset count = .ok (offset + count.encodedLen)) ∧
    (∀ (b : FixedBuffer n) (offset : Nat) (k : Kind), offset + k.encodedLen ≤ n →
      (∃ v, b.get offset k = .ok v) ∨
        ∃ t, b.bytes[offset]? = some t ∧ k.accepts t = false ∧
          b.get offset k = .error (.tagMismatch offset k.name t)) ∧
    ∀ (b : FixedBuffer n) (offset count : Nat) (k : Kind), 0 < count →
      offset + count * k.encodedLen ≤ n →
      (∃ vs, b.getMany offset k count = .ok vs ∧ vs.length = count) ∨
        ∃ i < count, ∃ t, b.bytes[offset + i * k.encodedLen]? = some t ∧ k.accepts t = false ∧
          b.getMany offset k count =
            .error (.tagMismatch (offset + i * k.encodedLen) k.name t) := by
  refine ⟨?_, ?_, ?_, ?_⟩
  · intro b p i
    have hwrite := p.getElem?_write b i
    exact ⟨fun h => by rw [hwrite, if_neg h], fun h => by rw [hwrite, if_pos h]⟩
  · intro b ps
    refine ⟨getElem?_fill b ps, ?_, ?_, ?_⟩
    · intro k v offset fits h
      have htail := exists_tail_of_lastTouching h rfl b
      exact Kind.decodeAt_eq_ok_iff.mpr htail
    · intro k vs nonempty offset fits h
      obtain ⟨tail, htail⟩ := exists_tail_of_lastTouching h rfl b
      rw [FixedBuffer.getMany, Run.decodeAt_of_bytes nonempty htail]
      rfl
    · intro count offset fits h
      have hsize : (Item.header count).size = count.encodedLen := by
        rw [Item.size, ArrayHeader.encodedLen_val, ArrayLength.length_encode]
      obtain ⟨tail, htail⟩ := exists_tail_of_lastTouching h hsize b
      exact ArrayHeader.expectAt_eq_ok_iff.mpr
        ⟨count.encode, tail, ArrayHeader.announces_encode count, htail,
          by rw [ArrayLength.length_encode]⟩
  · intro b offset k h
    exact b.get_ok_or_refused h
  · intro b offset count k hcount h
    exact b.getMany_ok_or_refused hcount h

end Layout

end TaggedWire
