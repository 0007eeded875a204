import TaggedWire.Proofs.Filling
import TaggedWire.Proofs.Header
import TaggedWire.Reader

/-!
What readers take. Whatever a reader is asked for, its answer depends on the bytes from its position
on; a request that fails leaves the reader where it stands. An element, a run and a header are each
told by their first byte, and the bytes that start an element of one kind start nothing else.
-/
namespace TaggedWire

namespace Kind

theorem not_marker_of_accepts {k : Kind} {b : UInt8} (h : k.accepts b = true) :
    isFixArray b = false ∧ b ≠ Tag.array16.byte ∧ b ≠ Tag.array32.byte := by
  cases k <;>
    simp only [accepts, Bool.or_eq_true, beq_iff_eq] at h <;>
    rcases h with rfl | rfl <;> decide

theorem decodeAt_of_refused {k : Kind} {buf tail : Bytes} {offset : Nat} {t : UInt8}
    (hbuf : buf.drop offset = t :: tail) (ht : k.accepts t = false) :
    k.decodeAt buf offset = .error (.tagMismatch offset k.name t) := by
  have hnot : ¬ k.accepts t = true := by
    rw [ht]
    exact Bool.false_ne_true
  rw [decodeAt, hbuf, read, if_neg hnot]
  rfl

end Kind

namespace Value

theorem decodeAt_eq (k : Kind) (buf : Bytes) (offset : Nat) :
    decodeAt k buf offset = ofNative k <$> k.decodeAt buf offset := by
  cases k <;> rfl

theorem decodeAt_eq_ok_iff {k : Kind} {buf : Bytes} {offset : Nat} {v : Value} :
    decodeAt k buf offset = .ok v ↔ v.kind = k ∧ ∃ tail, buf.drop offset = v.encode ++ tail := by
  rw [decodeAt_eq, map_eq_ok_iff]
  constructor
  · rintro ⟨n, hn, rfl⟩
    rw [encode_ofNative]
    exact ⟨kind_ofNative k n, Kind.decodeAt_eq_ok_iff.mp hn⟩
  · rintro ⟨rfl, hbuf⟩
    obtain ⟨n, hn⟩ := exists_ofNative v
    refine ⟨n, Kind.decodeAt_eq_ok_iff.mpr ?_, hn.symm⟩
    rwa [hn, encode_ofNative] at hbuf

end Value

namespace ArrayHeader

theorem decodeAt_of_accepts {k : Kind} {buf tail : Bytes} {offset : Nat} {t : UInt8}
    (hbuf : buf.drop offset = t :: tail) (ht : k.accepts t = true) :
    decodeAt buf offset = .error (.invalidArrayHeader offset t) := by
  obtain ⟨hfix, h16, h32⟩ := Kind.not_marker_of_accepts ht
  have hnot : ¬ isFixArray t = true := by
    rw [hfix]
    exact Bool.false_ne_true
  rw [decodeAt, hbuf, read, if_neg hnot, if_neg h16, if_neg h32]
  rfl

/-- No element starts like a header. -/
theorem Announces.exists_cons {n : Nat} {header : Bytes} (h : Announces n header) :
    ∃ b tail, header = b :: tail ∧ ∀ k : Kind, k.accepts b = false := by
  have hrefused : ∀ b : UInt8, isFixArray b = true ∨ b = 0xDC ∨ b = 0xDD →
      ∀ k : Kind, k.accepts b = false := by
    intro b hb k
    by_contra hk
    obtain ⟨hfix, h16, h32⟩ := Kind.not_marker_of_accepts (Bool.eq_true_of_not_eq_false hk)
    rcases hb with hb | hb | hb
    · rw [hfix] at hb
      cases hb
    · exact h16 hb
    · exact h32 hb
  cases h with
  | fixArray hle => exact ⟨_, [], rfl, hrefused _ (.inl (isFixArray_of_le hle).1)⟩
  | array16 => exact ⟨_, _, rfl, hrefused _ (.inr (.inl rfl))⟩
  | array32 => exact ⟨_, _, rfl, hrefused _ (.inr (.inr rfl))⟩

end ArrayHeader

namespace Reader

theorem step_advance {α : Type} (f : Reader → Except WireError (α × Nat)) (r : Reader) :
    r.step (advance f) =
      match f r with
      | .ok (a, next) => ({ r with position := next }, .ok a)
      | .error e => (r, .error e) := by
  change outcome (match f r with
    | .ok (a, next) => do
      set { r with position := next }
      return a
    | .error e => throw e) r = _
  cases f r <;> rfl

theorem step_map {α β : Type} (g : α → β) (m : Read α) (r : Reader) :
    r.step (g <$> m) = ((r.step m).1, g <$> (r.step m).2) :=
  outcome_map g

/-- A call to a reader: a request, or a run that is taken into given places. -/
inductive Call where
  | op (op : Op)
  | takeManyInto (k : Kind) (out : List k.Native)

/-- Reader and answer after a call. Places that were filled are answered as a run. -/
def call (r : Reader) : Call → Reader × Except WireError Item
  | .op op => r.step op.run
  | .takeManyInto k out =>
    match r.takeManyInto k out with
    | (r, out, .ok ()) => (r, .ok (.run k out))
    | (r, _, .error e) => (r, .error e)

/-- What a call finds at the position of a reader, and the position after it. -/
def Call.find (r : Reader) : Call → Except WireError (Item × Nat)
  | .op (.take k) =>
    (fun v => (.native k v, r.position + k.encodedLen)) <$> k.decodeAt r.input r.position
  | .op (.takeValue k) =>
    (fun v => (.value v, r.position + k.encodedLen)) <$> Value.decodeAt k r.input r.position
  | .op .takeArrayHeader =>
    (fun p => (.header p.1, p.2)) <$> ArrayHeader.decodeAt r.input r.position
  | .op (.expectArrayHeader n) =>
    (fun next => (.expected, next)) <$> ArrayHeader.expectAt r.input r.position n
  | .op (.takeMany k n) => (fun p => (.run k p.1, p.2)) <$> Run.decodeAt k r.input r.position n
  | .takeManyInto k out =>
    (fun p => (.run k p.1, p.2)) <$> Run.decodeAt k r.input r.position out.length

/-- A call moves the reader to where the found item ends, or fails and leaves it alone. -/
theorem call_eq (r : Reader) (c : Call) :
    r.call c =
      match c.find r with
      | .ok (item, next) => ({ r with position := next }, .ok item)
      | .error e => (r, .error e) := by
  cases c with
  | op op =>
    cases op with
    | take k =>
      rw [call, Op.run, step_map, take, step_advance, Call.find]
      cases k.decodeAt r.input r.position <;> rfl
    | takeValue k =>
      rw [call, Op.run, step_map, takeValue, step_advance, Call.find]
      cases Value.decodeAt k r.input r.position <;> rfl
    | takeArrayHeader =>
      rw [call, Op.run, step_map, takeArrayHeader, step_advance, Call.find]
      cases ArrayHeader.decodeAt r.input r.position <;> rfl
    | expectArrayHeader n =>
      rw [call, Op.run, step_map, expectArrayHeader, step_advance, Call.find]
      cases ArrayHeader.expectAt r.input r.position n <;> rfl
    | takeMany k n =>
      rw [call, Op.run, step_map, takeMany, step_advance, Call.find]
      cases Run.decodeAt k r.input r.position n <;> rfl
  | takeManyInto k out =>
    rw [call, takeManyInto, Call.find]
    cases h : Run.decodeAt k r.input r.position out.length with
    | ok found =>
      rw [Run.decodeInto_of_ok h]
      rfl
    | error e =>
      rw [Run.decodeInto_of_error h]
      rfl

theorem call_of_found {r : Reader} {c : Call} {item : Item} {next : Nat}
    (h : c.find r = .ok (item, next)) : r.call c = ({ r with position := next }, .ok item) := by
  rw [call_eq, h]

theorem call_of_error {r : Reader} {c : Call} {e : WireError} (h : c.find r = .error e) :
    r.call c = (r, .error e) := by
  rw [call_eq, h]

end Reader

end TaggedWire
